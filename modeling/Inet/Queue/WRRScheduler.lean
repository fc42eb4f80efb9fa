import Inet.Library.Credits
import Inet.Library.Run
import Inet.Common.Basic

/-!
# The weighted round-robin scheduler

`schedulePacket` serves the first input queue that has a packet and a bucket that is not used
up. When there is none it refills all buckets from the weights, and serves from them.
The buckets are the credits of a server whose shares are the weights (`covers_acts`).
-/

namespace Inet.Queue

open Credits (Act Covers)

/-- `WRRScheduler`, with the number of packets in each input queue. -/
structure WRRScheduler (numInputs : ℕ) where
  weights : Fin numInputs → ℤ
  buckets : Fin numInputs → ℤ
  inputQueues : Fin numInputs → ℕ

namespace WRRScheduler

variable {n : ℕ}

/-- Members `weights` and `buckets` as `WRRScheduler::initialize` leaves them. -/
def initialized (weights : Fin n → ℤ) (inputQueues : Fin n → ℕ) : WRRScheduler n :=
  ⟨weights, weights, inputQueues⟩

/-- `buckets[i]--; inputQueues[i]->requestPacket();` -/
def serve (s : WRRScheduler n) (i : Fin n) : WRRScheduler n :=
  { s with
    buckets := Function.update s.buckets i (s.buckets i - 1)
    inputQueues := Function.update s.inputQueues i (s.inputQueues i - 1) }

/-- What a call does: to refill the buckets is to renew the credits, and `requestPacket` on an
input queue is to serve it. -/
structure Call (n : ℕ) where
  scheduler : WRRScheduler n
  acts : List (Act (Fin n))
  packetRequested : Bool

/-- The first loop: it serves a queue and returns, or leaves `allQueueIsEmpty`. -/
def serveFromBuckets (s : WRRScheduler n) : Bool → List (Fin n) → Call n ⊕ Bool
  | allQueueIsEmpty, [] => .inr allQueueIsEmpty
  | allQueueIsEmpty, i :: is =>
    if s.inputQueues i ≠ 0 then
      if 0 < s.buckets i then .inl ⟨s.serve i, [.serve i], true⟩
      else serveFromBuckets s false is
    else serveFromBuckets s allQueueIsEmpty is

/-- The second loop. -/
def refillBuckets : Call n → List (Fin n) → Call n
  | c, [] => c
  | c, i :: is =>
    let s := { c.scheduler with
      buckets := Function.update c.scheduler.buckets i (c.scheduler.weights i) }
    if !c.packetRequested && decide (0 < s.buckets i) && decide (s.inputQueues i ≠ 0) then
      refillBuckets ⟨s.serve i, c.acts ++ [.serve i], true⟩ is
    else
      refillBuckets { c with scheduler := s } is

/-- `WRRScheduler::schedulePacket`. -/
def schedulePacket (s : WRRScheduler n) : Call n :=
  match s.serveFromBuckets true (List.finRange n) with
  | .inl call => call
  | .inr true => ⟨s, [], false⟩
  | .inr false => refillBuckets ⟨s, [.renew], false⟩ (List.finRange n)

/-! ## What one call does -/

section

variable {s : WRRScheduler n} {i : Fin n} {is : List (Fin n)} {c : Call n} {b : Bool}

/-- The first loop serves a queue that has a packet and a filled bucket. -/
theorem serveFromBuckets_inl (h : s.serveFromBuckets b is = .inl c) :
    ∃ i, s.inputQueues i ≠ 0 ∧ 0 < s.buckets i ∧ c = ⟨s.serve i, [.serve i], true⟩ := by
  induction is generalizing b with
  | nil => cases h
  | cons i is ih =>
    rw [serveFromBuckets] at h
    split_ifs at h with hqueue hbucket
    · exact ⟨i, hqueue, hbucket, (Sum.inl.inj h).symm⟩
    · exact ih h
    · exact ih h

/-- The first loop passes over all queues only if none of them can be served. -/
theorem serveFromBuckets_inr {b' : Bool} (h : s.serveFromBuckets b is = .inr b') :
    (∀ i ∈ is, s.inputQueues i = 0 ∨ s.buckets i ≤ 0) ∧
      (b' = true ↔ b = true ∧ ∀ i ∈ is, s.inputQueues i = 0) := by
  induction is generalizing b with
  | nil =>
    obtain rfl := Sum.inr.inj h
    simp
  | cons i is ih =>
    rw [serveFromBuckets] at h
    split_ifs at h with hqueue hbucket
    · obtain ⟨hserved, hb⟩ := ih h
      refine ⟨List.forall_mem_cons.mpr ⟨.inr (not_lt.mp hbucket), hserved⟩, ?_⟩
      rw [hb, List.forall_mem_cons]
      simp [hqueue]
    · obtain ⟨hserved, hb⟩ := ih h
      rw [not_not] at hqueue
      refine ⟨List.forall_mem_cons.mpr ⟨.inl hqueue, hserved⟩, ?_⟩
      rw [hb, List.forall_mem_cons]
      simp [hqueue]

/-- The scheduler with the buckets of some inputs refilled. -/
def refilled (s : WRRScheduler n) (is : List (Fin n)) : WRRScheduler n :=
  { s with buckets := fun j => if j ∈ is then s.weights j else s.buckets j }

theorem refilled_finRange (s : WRRScheduler n) :
    s.refilled (List.finRange n) = { s with buckets := s.weights } := by
  simp [refilled]

theorem refilled_cons (s : WRRScheduler n) (i : Fin n) (is : List (Fin n)) :
    refilled { s with buckets := Function.update s.buckets i (s.weights i) } is =
      s.refilled (i :: is) := by
  simp only [refilled, mk.injEq, true_and, and_true]
  funext j
  by_cases hj : j = i
  · subst hj
    simp
  · simp [hj]

theorem serve_refilled (hi : i ∉ is) : (s.serve i).refilled is = (s.refilled is).serve i := by
  simp only [refilled, serve, mk.injEq, true_and, and_true]
  funext j
  by_cases hj : j = i
  · subst hj
    simp [hi]
  · simp [Function.update_of_ne hj]

/-- After a packet has been requested the second loop only refills. -/
theorem refillBuckets_of_requested (h : c.packetRequested = true) :
    refillBuckets c is = { c with scheduler := c.scheduler.refilled is } := by
  induction is generalizing c with
  | nil => simp [refillBuckets, refilled]
  | cons i is ih =>
    obtain ⟨s, acts, requested⟩ := c
    obtain rfl : requested = true := h
    rw [refillBuckets]
    simp only [Bool.not_true, Bool.false_and, Bool.false_eq_true, if_false]
    rw [ih rfl, refilled_cons]

/-- The second loop refills all buckets, and serves a queue if one has a packet and a weight. -/
theorem refillBuckets_spec (his : is.Nodup) (hc : c.packetRequested = false) :
    (∃ i ∈ is, c.scheduler.inputQueues i ≠ 0 ∧ 0 < c.scheduler.weights i ∧ refillBuckets c is =
        ⟨(c.scheduler.refilled is).serve i, c.acts ++ [.serve i], true⟩) ∨
    (∀ i ∈ is, c.scheduler.inputQueues i = 0 ∨ c.scheduler.weights i ≤ 0) ∧
      refillBuckets c is = { c with scheduler := c.scheduler.refilled is } := by
  induction is generalizing c with
  | nil => exact .inr ⟨by simp, by simp [refillBuckets, refilled]⟩
  | cons i is ih =>
    obtain ⟨s, acts, requested⟩ := c
    obtain rfl : requested = false := hc
    obtain ⟨hi, hnodup⟩ := List.nodup_cons.mp his
    rw [refillBuckets]
    simp only [Bool.not_false, Bool.true_and, Function.update_self, Bool.and_eq_true,
      decide_eq_true_eq]
    split_ifs with hserve
    · refine .inl ⟨i, List.mem_cons_self, hserve.2, hserve.1, ?_⟩
      rw [refillBuckets_of_requested rfl]
      simp only [serve_refilled hi, refilled_cons]
    · have hnone : s.inputQueues i = 0 ∨ s.weights i ≤ 0 := by
        rcases Nat.eq_zero_or_pos (s.inputQueues i) with hqueue | hqueue
        · exact .inl hqueue
        · exact .inr (not_lt.mp fun hweight => hserve ⟨hweight, hqueue.ne'⟩)
      obtain ⟨j, hj, hqueue, hweight, heq⟩ | ⟨hrest, heq⟩ :=
        ih (c := ⟨{ s with buckets := Function.update s.buckets i (s.weights i) }, acts, false⟩)
          hnodup rfl
      · refine .inl ⟨j, List.mem_cons_of_mem i hj, hqueue, hweight, ?_⟩
        rw [heq]
        simp only [refilled_cons]
      · refine .inr ⟨List.forall_mem_cons.mpr ⟨hnone, hrest⟩, ?_⟩
        rw [heq]
        simp only [refilled_cons]

/-- What a call does. -/
theorem schedulePacket_cases (s : WRRScheduler n) : (∃ i, s.inputQueues i ≠ 0 ∧ 0 < s.buckets i ∧
      s.schedulePacket = ⟨s.serve i, [.serve i], true⟩) ∨
    (∀ i, s.inputQueues i = 0) ∧ s.schedulePacket = ⟨s, [], false⟩ ∨
    (∀ i, s.inputQueues i = 0 ∨ s.buckets i ≤ 0) ∧ ((∃ i, s.inputQueues i ≠ 0 ∧ 0 < s.weights i ∧
        s.schedulePacket = ⟨serve { s with buckets := s.weights } i, [.renew, .serve i], true⟩) ∨
      (∀ i, s.inputQueues i = 0 ∨ s.weights i ≤ 0) ∧
        s.schedulePacket = ⟨{ s with buckets := s.weights }, [.renew], false⟩) := by
  unfold schedulePacket
  split
  next call hcall => exact .inl (serveFromBuckets_inl hcall)
  next hall =>
    have hempty := ((serveFromBuckets_inr hall).2.mp rfl).2
    exact .inr (.inl ⟨fun i => hempty i (List.mem_finRange i), rfl⟩)
  next hsome =>
    refine .inr (.inr ⟨fun i => (serveFromBuckets_inr hsome).1 i (List.mem_finRange i), ?_⟩)
    obtain ⟨i, -, hqueue, hweight, heq⟩ | ⟨hnone, heq⟩ :=
      refillBuckets_spec (c := ⟨s, [.renew], false⟩) (List.nodup_finRange n) rfl
    · exact .inl ⟨i, hqueue, hweight, by rw [heq, refilled_finRange]; rfl⟩
    · exact .inr ⟨fun i => hnone i (List.mem_finRange i), by rw [heq, refilled_finRange]⟩

/-! ## Runs -/

inductive Op (n : ℕ) where
  /-- A packet is put into an input queue. -/
  | arrival (i : Fin n)
  | schedulePacket
deriving DecidableEq

def perform (s : WRRScheduler n) : Op n → Call n
  | .arrival i =>
    ⟨{ s with inputQueues := Function.update s.inputQueues i (s.inputQueues i + 1) }, [], false⟩
  | .schedulePacket => s.schedulePacket

def step (s : WRRScheduler n) (op : Op n) : Result (WRRScheduler n) :=
  .ok (s.perform op).scheduler

/-- The scheduler after the operations. -/
def after : WRRScheduler n → List (Op n) → WRRScheduler n
  | s, [] => s
  | s, op :: ops => (s.perform op).scheduler.after ops

/-- All refills and requests, in their order. -/
def acts : WRRScheduler n → List (Op n) → List (Act (Fin n))
  | _, [] => []
  | s, op :: ops => (s.perform op).acts ++ (s.perform op).scheduler.acts ops

/-- The queues from which the acts request a packet. -/
def requests (acts : List (Act (Fin n))) : List (Fin n) :=
  acts.filterMap fun
    | .renew => none
    | .serve i => some i

/-- Every call finds a packet in each queue with a positive weight. -/
def Backlogged : WRRScheduler n → List (Op n) → Prop :=
  Run.Admissible step fun s op =>
    op = .schedulePacket → ∀ i, 0 < s.weights i → 0 < s.inputQueues i

instance (s : WRRScheduler n) (ops : List (Op n)) : Decidable (s.Backlogged ops) :=
  inferInstanceAs (Decidable (Run.Admissible _ _ _ _))

/-- No bucket has more than its weight. -/
def BucketsWithin (s : WRRScheduler n) : Prop := ∀ i, s.buckets i ≤ s.weights i

/-- The weights as shares; a negative weight is as good as none. -/
def share (s : WRRScheduler n) (i : Fin n) : ℕ := (s.weights i).toNat

/-- The buckets as credits. -/
def credit (s : WRRScheduler n) (i : Fin n) : ℕ := (s.buckets i).toNat

variable {op : Op n} {ops : List (Op n)} {mayRenew : (Fin n → ℕ) → Prop}

theorem BucketsWithin.serve (h : s.BucketsWithin) (i : Fin n) : (s.serve i).BucketsWithin := by
  intro j
  have hj := h j
  simp only [WRRScheduler.serve]
  by_cases hij : j = i
  · subst hij
    rw [Function.update_self]
    omega
  · rwa [Function.update_of_ne hij]

theorem BucketsWithin.perform (h : s.BucketsWithin) (op : Op n) :
    (s.perform op).scheduler.BucketsWithin := by
  have hfull : BucketsWithin { s with buckets := s.weights } := fun _ => le_rfl
  cases op with
  | arrival i => exact h
  | schedulePacket =>
    rw [WRRScheduler.perform]
    obtain ⟨i, -, -, heq⟩ | ⟨-, heq⟩ | ⟨-, ⟨i, -, -, heq⟩ | ⟨-, heq⟩⟩ :=
      s.schedulePacket_cases <;> rw [heq]
    · exact h.serve i
    · exact h
    · exact hfull.serve i
    · exact hfull

theorem BucketsWithin.after (h : s.BucketsWithin) (ops : List (Op n)) :
    (s.after ops).BucketsWithin := by
  induction ops generalizing s with
  | nil => exact h
  | cons op ops ih => exact ih (h.perform op)

theorem weights_perform (s : WRRScheduler n) (op : Op n) :
    (s.perform op).scheduler.weights = s.weights := by
  cases op with
  | arrival i => rfl
  | schedulePacket =>
    rw [perform]
    obtain ⟨i, -, -, heq⟩ | ⟨-, heq⟩ | ⟨-, ⟨i, -, -, heq⟩ | ⟨-, heq⟩⟩ :=
      s.schedulePacket_cases <;> rw [heq] <;> rfl

theorem weights_after (s : WRRScheduler n) (ops : List (Op n)) :
    (s.after ops).weights = s.weights := by
  induction ops generalizing s with
  | nil => rfl
  | cons op ops ih => exact (ih _).trans (s.weights_perform op)

theorem share_perform (s : WRRScheduler n) (op : Op n) :
    (s.perform op).scheduler.share = s.share := by
  funext i
  rw [share, weights_perform, share]

theorem credit_serve (s : WRRScheduler n) (i : Fin n) :
    (s.serve i).credit = Function.update s.credit i (s.credit i - 1) := by
  funext j
  simp only [credit, serve]
  by_cases hj : j = i
  · subst hj
    simp only [Function.update_self]
    omega
  · simp [Function.update_of_ne hj, credit]

/-- The credits pay for one operation, and what is left of them is in the buckets. -/
theorem covers_perform {rest : List (Act (Fin n))}
    (hmay : op = .schedulePacket → (∀ i, s.inputQueues i = 0 ∨ s.buckets i ≤ 0) → mayRenew s.credit)
    (hrest : Covers s.share mayRenew (s.perform op).scheduler.credit rest) :
    Covers s.share mayRenew s.credit ((s.perform op).acts ++ rest) := by
  cases op with
  | arrival i => exact hrest
  | schedulePacket =>
    rw [perform] at hrest ⊢
    obtain ⟨i, -, hbucket, heq⟩ | ⟨-, heq⟩ | ⟨hnone, ⟨i, -, hweight, heq⟩ | ⟨-, heq⟩⟩ :=
      s.schedulePacket_cases <;> rw [heq] at hrest ⊢
    · rw [credit_serve] at hrest
      exact ⟨by rw [credit]; omega, hrest⟩
    · exact hrest
    · rw [credit_serve] at hrest
      exact ⟨hmay rfl hnone, by rw [share]; omega, hrest⟩
    · exact ⟨hmay rfl hnone, hrest⟩

/-- The credits pay for a whole run. -/
theorem covers_acts {P : WRRScheduler n → Prop} (hs : s.BucketsWithin)
    (hrun : Run.Admissible step (fun s op => op = .schedulePacket → P s) s ops)
    (hmay : ∀ s : WRRScheduler n, s.BucketsWithin → P s →
      (∀ i, s.inputQueues i = 0 ∨ s.buckets i ≤ 0) → mayRenew s.credit) :
    Covers s.share mayRenew s.credit (s.acts ops) := by
  induction ops generalizing s with
  | nil => exact trivial
  | cons op ops ih =>
    have hrest := ih (hs.perform op) (hrun.2 _ rfl)
    rw [share_perform] at hrest
    exact covers_perform (fun hop hnone => hmay s hs (hrun.1 hop) hnone) hrest

theorem covers_acts_of_within (hs : s.BucketsWithin) (ops : List (Op n)) :
    Covers s.share (fun _ => True) s.credit (s.acts ops) := by
  have hrun : Run.Admissible step (fun _ op => op = Op.schedulePacket → True) s ops := by
    induction ops generalizing s with
    | nil => exact trivial
    | cons op ops ih => exact ⟨fun _ => trivial, fun t ht => ih (Except.ok.inj ht ▸ hs.perform op)⟩
  exact covers_acts hs hrun fun _ _ _ _ => trivial

/-- While the queues with positive weights are backlogged, credits are renewed only when
none is left. -/
theorem Backlogged.covers (h : s.Backlogged ops) (hs : s.BucketsWithin) :
    Covers s.share (fun credit => ∀ i, credit i = 0) s.credit (s.acts ops) := by
  refine covers_acts hs h fun s hs hqueues hnone i => ?_
  have hwithin := hs i
  rw [credit]
  by_cases hweight : 0 < s.weights i
  · have := hqueues i hweight
    obtain hqueue | hbucket := hnone i <;> omega
  · omega

/-- A call serves exactly one queue that has a packet if one with a positive weight has a
packet, and none otherwise. -/
theorem schedulePacket_spec (hs : s.BucketsWithin) :
    if ∃ i, 0 < s.weights i ∧ 0 < s.inputQueues i then
      s.schedulePacket.packetRequested = true ∧
        ∃ i, 0 < s.inputQueues i ∧ requests s.schedulePacket.acts = [i]
    else s.schedulePacket.packetRequested = false ∧ requests s.schedulePacket.acts = [] := by
  obtain ⟨i, hqueue, hbucket, heq⟩ | ⟨hempty, heq⟩ |
      ⟨-, ⟨i, hqueue, hweight, heq⟩ | ⟨hnone, heq⟩⟩ := s.schedulePacket_cases <;> rw [heq]
  · have hweight : 0 < s.weights i := hbucket.trans_le (hs i)
    rw [if_pos ⟨i, hweight, Nat.pos_of_ne_zero hqueue⟩]
    exact ⟨rfl, i, Nat.pos_of_ne_zero hqueue, rfl⟩
  · rw [if_neg (by rintro ⟨i, -, hi⟩; exact hi.ne' (hempty i))]
    exact ⟨rfl, rfl⟩
  · rw [if_pos ⟨i, hweight, Nat.pos_of_ne_zero hqueue⟩]
    exact ⟨rfl, i, Nat.pos_of_ne_zero hqueue, rfl⟩
  · rw [if_neg (by rintro ⟨i, hweight, hi⟩; obtain h | h := hnone i <;> omega)]
    exact ⟨rfl, rfl⟩

end

/-- In every run of arrivals and calls, a call serves exactly one queue if one with a positive
weight has a packet, no queue is served more often between two refills than its weight says, and
exactly as often if the queues with positive weights never run empty. -/
theorem serves_by_weight (weights : Fin n → ℤ) (inputQueues : Fin n → ℕ) (ops : List (Op n)) :
    (let s := (initialized weights inputQueues).after ops
      if ∃ i, 0 < weights i ∧ 0 < s.inputQueues i then
        s.schedulePacket.packetRequested = true ∧
          ∃ i, 0 < s.inputQueues i ∧ requests s.schedulePacket.acts = [i]
      else s.schedulePacket.packetRequested = false ∧ requests s.schedulePacket.acts = []) ∧
    (∀ block, block <:+: (initialized weights inputQueues).acts ops → Act.renew ∉ block →
      ∀ i, block.count (.serve i) ≤ (weights i).toNat) ∧
    ((initialized weights inputQueues).Backlogged ops → ∀ before block after,
      (initialized weights inputQueues).acts ops =
        before ++ .renew :: (block ++ .renew :: after) → Act.renew ∉ block →
      ∀ i, block.count (.serve i) = (weights i).toNat) := by
  have hstart : (initialized weights inputQueues).BucketsWithin := fun _ => le_rfl
  refine ⟨?_, fun block hblock hrenew => ?_, fun hrun before block after hacts hrenew => ?_⟩
  · have hweights : ((initialized weights inputQueues).after ops).weights = weights :=
      weights_after _ ops
    have hcall := schedulePacket_spec (hstart.after ops)
    rw [hweights] at hcall
    exact hcall
  · exact (covers_acts_of_within hstart ops).count_le (fun _ => le_rfl) hblock hrenew
  · exact (hrun.covers hstart).count_eq hacts hrenew

/-- With weights 2, 0 and 1 the second round serves the first queue twice and the third once. -/
theorem serves_by_weight_second_round :
    (initialized ![2, 0, 1] ![5, 1, 5]).acts (List.replicate 7 .schedulePacket) =
        [.serve 0, .serve 0, .serve 2] ++ .renew :: ([.serve 0, .serve 0, .serve 2] ++
          .renew :: [.serve 0]) ∧
      [Act.serve 0, .serve 0, .serve 2].count (.serve (0 : Fin 3)) = 2 :=
  ⟨by decide, (serves_by_weight ![2, 0, 1] ![5, 1, 5] (List.replicate 7 .schedulePacket)).2.2
    (by decide) [.serve 0, .serve 0, .serve 2] [.serve 0, .serve 0, .serve 2] [.serve 0]
    (by decide) (by decide) 0⟩

end WRRScheduler

end Inet.Queue
