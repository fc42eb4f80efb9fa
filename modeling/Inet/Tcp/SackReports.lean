import Inet.Tcp.SackProcessing

/-!
# The SACK options of a connection

A header is right if its option is, and if no assertion fails. `sendsRight_of_fillsAll` is the run
theorem for segments that leave no data in the receive queue when they move `rcv_nxt`. If data is
left, a SACK is sent as well (`noteAdvance`), and its first block is the segment, which is below the
number that the same header acknowledges; the peer takes it for a D-SACK. Behind the FIN there is
nothing to report.

Blocks stay in `sacks_array` until the next option is written, so that one from long ago may come to
lie in the half of the sequence space behind `rcv_nxt` again.
-/

namespace Inet.Tcp

open SerialNumber (ofPos Near)

variable {μ : Type}

namespace SackConnection

section

variable {s0 : Uint32} {c c₁ c' : SackConnection} {options : List TCPOption}
  {is : List (ℕ × ℕ)} {first next : ℕ} {event : Event μ}

/-- What a run keeps true in the states that take text. Once a FIN has been passed the blocks do
not matter any more. -/
def Inv (s0 : Uint32) (c : SackConnection) : Prop :=
  c.conn.takesText = true → Idle c.conn ∧
    (c.conn.receiveQueue.rcvNxt = c.conn.state.rcvNxt → ∃ is first next,
      Kept s0 c.conn is first next ∧
      Remembers s0 (ofPos s0 next) next (· ∈ is) c.sacksArray)

/-- A header is right, and the invariant holds once it has been sent. -/
def Writes (s0 : Uint32) (c : SackConnection) (options : List TCPOption) : Prop :=
  ∃ c' options', c.writeHeaderOptions options = .ok (c', options') ∧
    getHeaderOptionArrayLength options' ≤ TCP_OPTIONS_MAX_SIZE ∧
    RightOptions c.conn options options' ∧ Inv s0 c'

/-- Without a flag there is no option. -/
theorem writes_of_idle (hidle : c.conn.takesText = true → Idle c.conn) (hInv : Inv s0 c)
    (hused : getHeaderOptionArrayLength options ≤ 30) : Writes s0 c options := by
  have hguard : (c.conn.takesText && c.conn.state.sackEnabled &&
      (c.conn.state.sndSack || c.conn.state.sndDsack)) = false := by
    cases htext : c.conn.takesText with
    | false => rfl
    | true =>
      obtain ⟨hsack, hdsack⟩ := hidle htext
      rw [hsack, hdsack, Bool.or_self, Bool.and_false]
  refine ⟨c, options, ?_, hused.trans (by decide), ?_, hInv⟩
  · rw [writeHeaderOptions, hguard, if_neg Bool.false_ne_true]
  · rw [RightOptions, hguard, Bool.false_and, if_neg Bool.false_ne_true]

/-- What is left of the blocks is remembered. -/
theorem Blocks.remembers {kept : List Sack} {rcvNxt : Uint32} (h : Blocks s0 next is kept) :
    Remembers s0 rcvNxt next (· ∈ is) kept :=
  ⟨fun b hb => .inr (h.2 b hb), h.1.imp fun hne heq => absurd heq hne⟩

theorem writes_of_adds (h : Kept s0 c.conn is first next) (hadds : Adds s0 next is c options)
    (htext : c.conn.takesText = true)
    (hflag : (c.conn.state.sndSack || c.conn.state.sndDsack) = true)
    (hne : c.conn.state.startSeqno ≠ c.conn.state.endSeqno) : Writes s0 c options := by
  obtain ⟨kept, k, items, hadd, hfits, hright, hkept⟩ := hadds
  have hguard : (c.conn.takesText && c.conn.state.sackEnabled &&
      (c.conn.state.sndSack || c.conn.state.sndDsack)) = true := by
    rw [htext, h.enabled, hflag]
    rfl
  refine ⟨⟨resetFlags c.conn, kept⟩, _, ?_, hfits, ?_, fun _ => ⟨⟨rfl, rfl⟩, fun _ => ?_⟩⟩
  · rw [writeHeaderOptions, if_pos hguard]
    exact hadd
  · rw [RightOptions, hguard, Bool.true_and, if_pos (bne_iff_ne.mpr hne)]
    exact ⟨k, items, rfl, hright⟩
  · exact ⟨is, first, next, h.same ⟨rfl, rfl, rfl, rfl⟩, hkept.remembers⟩

/-- The FIN of a segment without text: there is nothing to report. -/
theorem writes_of_fin (henabled : c.conn.state.sackEnabled = true)
    (htext : c.conn.takesText = true) (heq : c.conn.state.startSeqno = c.conn.state.endSeqno)
    (hold : ∀ b ∈ c.sacksArray, seqLE b.end c.conn.state.rcvNxt = true)
    (hused : getHeaderOptionArrayLength options ≤ 30)
    (hflag : (c.conn.state.sndSack || c.conn.state.sndDsack) = true)
    (hapart : c.conn.receiveQueue.rcvNxt ≠ c.conn.state.rcvNxt) : Writes s0 c options := by
  have hguard : (c.conn.takesText && c.conn.state.sackEnabled &&
      (c.conn.state.sndSack || c.conn.state.sndDsack)) = true := by
    rw [htext, henabled, hflag]
    rfl
  have hdelete : deleteOld c.conn.state.rcvNxt c.sacksArray = .ok [] := by
    rw [deleteOld_eq fun b hb => .inl (hold b hb)]
    refine congrArg Except.ok (List.filter_eq_nil_iff.mpr fun b hb => ?_)
    rw [hold b hb]
    exact Bool.false_ne_true
  have hroom : ¬ getHeaderOptionArrayLength options >
      TCP_OPTIONS_MAX_SIZE - TCP_OPTION_SACK_MIN_SIZE := not_lt.mpr hused
  refine ⟨⟨resetFlags c.conn, []⟩, options, ?_, hused.trans (by decide), ?_,
    fun _ => ⟨⟨rfl, rfl⟩, fun happart => absurd happart hapart⟩⟩
  · rw [writeHeaderOptions, if_pos hguard, addSacks]
    dsimp only
    rw [hdelete, ok_bind, if_neg hroom, insertBlock, if_pos heq, ok_bind,
      List.length_nil, Nat.zero_min, if_pos rfl, List.tail_nil, ite_self]
  · rw [RightOptions, heq, bne_self_eq_false, Bool.and_false, if_neg Bool.false_ne_true]

/-- A header after a segment: if the segment has moved `rcv_nxt` nothing is left in the queue, or
nothing is remembered; and what was old is old still. -/
theorem Outcome.writes (h : Outcome s0 is first next c.conn)
    (hrem : Remembers s0 (ofPos s0 next) next (· ∈ is) c.sacksArray)
    (hfirst : first ≤ next) (hproper : Intervals.Proper is)
    (htext : c.conn.takesText = true) (hused : getHeaderOptionArrayLength options ≤ 30)
    (hcond : c.conn.state.rcvNxt ≠ ofPos s0 next → (c.conn.receiveQueue.regionList = [] ∨
        ∀ b ∈ c.sacksArray, seqLE b.end c.conn.state.rcvNxt = true) ∧
      ∀ b ∈ c.sacksArray, seqLE b.end (ofPos s0 next) = true →
        seqLE b.end c.conn.state.rcvNxt = true) : Writes s0 c options := by
  cases h with
  | quiet kept idle =>
    exact writes_of_idle (fun _ => idle) (fun _ => ⟨idle, fun _ => ⟨is, first, next, kept, hrem⟩⟩)
      hused
  | passed apart enabled fin =>
    by_cases hidle : Idle c.conn
    · exact writes_of_idle (fun _ => hidle) (fun _ => ⟨hidle, fun heq => absurd heq apart⟩) hused
    · obtain ⟨hmoved, hleft, heq⟩ := fin.resolve_left hidle
      refine writes_of_fin enabled htext heq ((hcond hmoved).1.resolve_left hleft) hused ?_ apart
      by_contra hflag
      rw [Bool.not_eq_true, Bool.or_eq_false_iff] at hflag
      exact hidle hflag
  | duplicate is' kept stays dsack ne whole =>
    have hrem' : Remembers s0 (ofPos s0 next) next (· ∈ is') c.sacksArray :=
      ⟨fun b hb => (hrem.blocks b hb).imp_right fun ⟨i, hi, hrest⟩ => ⟨i, stays i hi, hrest⟩,
        hrem.distinct⟩
    refine writes_of_adds kept
      (adds_dsack kept.layout kept.rcvNxt hrem' hused ne whole dsack) htext ?_ ne
    rw [dsack, Bool.or_true]
  | stored is' j k kept stays mem above low lt high start stop sack noDsack =>
    have hrem' : Remembers s0 (ofPos s0 next) next
        (fun i => i ∈ is' ∨ k.1 ≤ i.1 ∧ i.1 < i.2 ∧ i.2 ≤ k.2) c.sacksArray :=
      ⟨fun b hb => (hrem.blocks b hb).imp_right fun ⟨i, hi, hrest⟩ => ⟨i, stays i hi, hrest⟩,
        hrem.distinct⟩
    have hwk := kept.layout.window k mem
    have hbounds : first ≤ k.1 ∧ k.1 ≤ k.2 ∧ k.2 < first + 2 ^ 31 := id hwk
    refine writes_of_adds kept
      (adds_sack kept.layout kept.rcvNxt mem above hrem' hused low lt high start stop noDsack)
      htext ?_ ?_
    · rw [sack, Bool.true_or]
    · rw [start, stop]
      exact @blockAt_start_ne s0 j first ⟨by omega, by omega, by omega⟩ lt
  | advanced next' kept idle le lt below =>
    refine writes_of_idle (fun _ => idle) (fun _ => ⟨idle, fun _ => ⟨[], next', next', kept, ?_⟩⟩)
      hused
    have hstill : ∀ b ∈ c.sacksArray, seqLE b.end (ofPos s0 next) = true →
        seqLE b.end (ofPos s0 next') = true := by
      intro b hb hold
      by_cases hmoved : c.conn.state.rcvNxt = ofPos s0 next
      · rwa [← kept.rcvNxt, hmoved]
      · rw [← kept.rcvNxt]
        exact (hcond hmoved).2 b hb hold
    have hall : ∀ b ∈ c.sacksArray, seqLE b.end (ofPos s0 next') = true := by
      intro b hb
      obtain hold | ⟨i, hi, habove, rfl⟩ := hrem.blocks b hb
      · exact hstill b hb hold
      · have hlt := hproper i hi
        have hle := below i hi
        rw [blockAt, seqLE_ofPos (@near_of_window _ _ first (by omega) (by omega))]
        exact decide_eq_true hle
    exact ⟨fun b hb => .inl (hall b hb),
      List.pairwise_of_forall_mem_list fun a ha _ _ _ => hall a ha⟩

theorem extractAll_rcvNxt {seq : Uint32} {fuel : ℕ} {queue queue' : TCPVirtualDataRcvQueue Region}
    (hok : queue.extractAll seq fuel = .ok queue') : queue'.rcvNxt = queue.rcvNxt := by
  induction fuel generalizing queue with
  | zero => cases hok
  | succ fuel ih =>
    obtain ⟨⟨msg, queue₁⟩, hext, hok⟩ := bind_eq_ok.mp hok
    have hkeeps : queue₁.rcvNxt = queue.rcvNxt := by
      obtain ⟨_, -, hext⟩ := bind_eq_ok.mp hext
      cases hlist : queue.regionList with
      | nil =>
        rw [hlist] at hext
        cases hext
        rfl
      | cons reg rest =>
        rw [hlist] at hext
        dsimp only at hext
        split_ifs at hext
        · cases hext
          rfl
        · cases hext
          rfl
        · obtain ⟨⟨front, back⟩, -, hext⟩ := bind_eq_ok.mp hext
          cases hext
          rfl
    cases msg with
    | none =>
      cases hok
      exact hkeeps
    | some reg => exact (ih hok).trans hkeeps

/-- A READ takes the data in order out of the queue, and no block. -/
theorem Inv.processReadRequest {conn : TCPConnection} (h : Inv s0 c)
    (hok : c.conn.processReadRequest = .ok conn) : Inv s0 { c with conn } := by
  obtain ⟨queue, hext, hread⟩ := bind_eq_ok.mp hok
  have hrcv := extractAll_rcvNxt hext
  cases hread
  intro htext
  obtain ⟨hidle, hblocks⟩ := h htext
  refine ⟨hidle, fun heq => ?_⟩
  obtain ⟨is, first, next, hkept, hrem⟩ := hblocks (hrcv.symm.trans heq)
  obtain ⟨is', hkept', -, -, hcover⟩ := hkept.processReadRequest hok
  refine ⟨is', next, next, hkept', fun b hb => (hrem.blocks b hb).imp_right ?_, hrem.distinct⟩
  rintro ⟨i, hi, habove, rfl⟩
  exact ⟨i, hkept.layout.ascending.mem_of_cover hkept.layout.proper hkept'.layout.ascending hi
    fun x hx => hcover x (by omega), habove, rfl⟩

/-- The data of the peer fits into the window that is open, and a header has no more than the time
stamp before the option is added. Once a FIN has been passed the FSM is in a state that takes no
text. -/
def Allowed (c : SackConnection) : Event μ → Prop
  | .segment fsm tcpseg env options =>
    (({ c.conn with fsm } : TCPConnection).takesText = true →
      c.conn.takesText = true ∧ c.conn.receiveQueue.rcvNxt = c.conn.state.rcvNxt) ∧
    tcpseg.payloadLength < 2 ^ 31 ∧ (env.atCheck.rcvWnd ≠ 0 → env.afterAck.rcvWnd ≠ 0) ∧
    env.afterAck.rcvWnd.toNat ≤ c.conn.state.maxRcvBuffer.toNat ∧
    getHeaderOptionArrayLength options ≤ 30
  | .read => True
  | .sendSegment options => getHeaderOptionArrayLength options ≤ 30

/-- Nothing is left to report: the receive queue is empty, or a segment without text has come when
all blocks are old. And the blocks that were old still are. -/
def LeavesNothing (c : SackConnection) (payloadLength : ℕ) (conn : TCPConnection) : Prop :=
  (conn.receiveQueue.regionList = [] ∨
    payloadLength = 0 ∧ ∀ b ∈ c.sacksArray, seqLE b.end conn.state.rcvNxt = true) ∧
  ∀ b ∈ c.sacksArray, seqLE b.end c.conn.state.rcvNxt = true → seqLE b.end conn.state.rcvNxt = true
deriving Decidable

/-- A segment that moves `rcv_nxt` leaves nothing to report. -/
def FillsAll (c : SackConnection) : Event μ → Prop
  | .segment fsm tcpseg env _ => ∀ p,
      ({ c.conn with fsm } : TCPConnection).processSegment1stThru8th tcpseg env = .ok p →
        p.conn.takesText = true → p.conn.state.rcvNxt ≠ c.conn.state.rcvNxt →
          c.LeavesNothing tcpseg.payloadLength p.conn
  | .read => True
  | .sendSegment _ => True

theorem Inv.writes (h : Inv s0 c) (hallowed : c.Allowed event) (hfills : c.FillsAll event)
    (hok : c.beforeSending event = .ok (c₁, options)) : Writes s0 c₁ options := by
  cases event with
  | segment fsm tcpseg env options' =>
    obtain ⟨p, hp, hok⟩ := bind_eq_ok.mp hok
    cases hok
    obtain ⟨hstate, hlen, hwnd, hmax, hused⟩ := hallowed
    have hfsm := processSegment_fsm hp
    have htakes : p.conn.takesText = ({ c.conn with fsm } : TCPConnection).takesText := by
      rw [TCPConnection.takesText, TCPConnection.takesText, hfsm]
    by_cases htext : p.conn.takesText = true
    · obtain ⟨hbefore, hpart⟩ := hstate (htakes.symm.trans htext)
      obtain ⟨hidle, hblocks⟩ := h hbefore
      obtain ⟨is, first, next, hkept, hrem⟩ := hblocks hpart
      have hcond : p.conn.state.rcvNxt ≠ c.conn.state.rcvNxt →
          c.LeavesNothing tcpseg.payloadLength p.conn := hfills p hp htext
      have hA : p.conn.state.rcvNxt = c.conn.state.rcvNxt ∨
          p.conn.receiveQueue.regionList = [] ∨ tcpseg.payloadLength = 0 := by
        by_cases hmoved : p.conn.state.rcvNxt = c.conn.state.rcvNxt
        · exact .inl hmoved
        · exact .inr ((hcond hmoved).1.imp_right And.left)
      have hkept' : Kept s0 ({ c.conn with fsm } : TCPConnection) is first next :=
        hkept.same ⟨rfl, rfl, rfl, rfl⟩
      have hout := outcome_processSegment hkept' hidle hlen hwnd hmax hp hA
      refine Outcome.writes (c := { c with conn := p.conn }) hout hrem
        hkept.layout.next_window.1 hkept.layout.proper htext hused fun hmoved => ?_
      rw [← hkept.rcvNxt] at hmoved ⊢
      exact (hcond hmoved).imp_left (Or.imp_right And.right)
    · exact writes_of_idle (fun htext' => absurd htext' htext)
        (fun htext' => absurd htext' htext) hused
  | read =>
    obtain ⟨conn, hread, hok⟩ := bind_eq_ok.mp hok
    cases hok
    have h' := h.processReadRequest hread
    exact writes_of_idle (fun htext => (h' htext).1) h' (Nat.zero_le _)
  | sendSegment options' =>
    cases hok
    exact writes_of_idle (fun htext => (h htext).1) h hallowed

theorem Inv.step (h : Inv s0 c) (hallowed : c.Allowed event) (hfills : c.FillsAll event)
    (hok : c.step event = .ok c') : Inv s0 c' := by
  obtain ⟨⟨c₁, options⟩, hbefore, hok⟩ := bind_eq_ok.mp hok
  obtain ⟨c₂, options', hwrite, -, -, h₂⟩ := h.writes hallowed hfills hbefore
  dsimp only at hok
  rw [hwrite] at hok
  cases hok
  exact h₂

/-- The SYN of the peer has been accepted, and the use of SACK options agreed on. -/
structure Opened (s0 : Uint32) (c : SackConnection) : Prop where
  queue : c.conn.receiveQueue = .init s0
  rcvNxt : c.conn.state.rcvNxt = s0
  maxRcvBuffer : c.conn.state.maxRcvBuffer.toNat < 2 ^ 30
  enabled : c.conn.state.sackEnabled = true
  idle : Idle c.conn
  sacksArray : c.sacksArray = []

theorem Inv.start (h : Opened s0 c) : Inv s0 c := by
  refine fun _ => ⟨h.idle, fun _ => ⟨[], 0, 0, ⟨h.queue ▸ Layout.init s0 (At s0), ?_,
    h.maxRcvBuffer, Nat.zero_le _, by simp, h.enabled⟩, ?_, ?_⟩⟩
  · rw [h.rcvNxt, SerialNumber.ofPos_zero]
  · simp [h.sacksArray]
  · rw [h.sacksArray]
    exact .nil

/-- Every header that is sent for the event is right. -/
def SendsRight (c : SackConnection) (event : Event μ) : Prop :=
  ∀ c₁ options, c.beforeSending event = .ok (c₁, options) → Sends c₁ options

/-- In every run in which a segment that moves `rcv_nxt` leaves nothing to report, every header
that is sent is right. -/
theorem sendsRight_of_fillsAll (s0 : Uint32) (c : SackConnection) (opened : Opened s0 c)
    (events : List (Event μ))
    (fills : Run.Admissible step (fun c event => c.Allowed event ∧ c.FillsAll event) c events) :
    Run.Admissible step SendsRight c events := by
  refine fills.mono_of_step (fun _ _ _ h hok hstep => Inv.step h hok.1 hok.2 hstep)
    (fun c event h hok c₁ options hbefore => ?_) (Inv.start opened)
  obtain ⟨c', options', hwrite, hfits, hright, -⟩ := h.writes hok.1 hok.2 hbefore
  exact ⟨c', options', hwrite, hfits, hright⟩

end

instance (c : SackConnection) : (event : Event μ) → Decidable (c.FillsAll event)
  | .segment fsm tcpseg env _ =>
    match h : ({ c.conn with fsm } : TCPConnection).processSegment1stThru8th tcpseg env with
    | .ok p =>
      decidable_of_iff (p.conn.takesText = true → p.conn.state.rcvNxt ≠ c.conn.state.rcvNxt →
        c.LeavesNothing tcpseg.payloadLength p.conn) (by simp [FillsAll, h])
    | .error _ => .isTrue (by simp [FillsAll, h])
  | .read => .isTrue trivial
  | .sendSegment _ => .isTrue trivial

instance (c : SackConnection) : (event : Event μ) → Decidable (c.Allowed event)
  | .segment .. => inferInstanceAs (Decidable (_ ∧ _ ∧ _ ∧ _ ∧ _))
  | .read => .isTrue trivial
  | .sendSegment _ => inferInstanceAs (Decidable (_ ≤ _))

/-- A connection that expects the byte with number 0, with a buffer and a window of 100 bytes. -/
def opened100 : SackConnection where
  conn :=
    { fsm := .ESTABLISHED
      state := { sndUna := 7, sndNxt := 7, sndMax := 7, rcvWnd := 100, rcvNxt := 0,
                 maxRcvBuffer := 100, sackEnabled := true }
      receiveQueue := .init 0 }

theorem opened_opened100 : Opened 0 opened100 :=
  ⟨rfl, rfl, by decide, rfl, ⟨rfl, rfl⟩, rfl⟩

/-- A segment with `n` bytes from `o` on, and an ACK for it without other options. -/
def arrival (o : Uint32) (n : ℕ) : Event Unit :=
  let vars := opened100.conn.state.toSendVariables
  .segment .ESTABLISHED { sequenceNo := o, payloadLength := n, ackNo := 7, ackBit := true }
    { atCheck := vars, afterAck := vars, atEnd := vars } []

/-- Two blocks, one of which comes twice, are filled up at once; then there is a gap again. -/
theorem sendsRight_of_gaps_filled_at_once : Run.Admissible step SendsRight opened100
      [arrival 10 10, arrival 30 10, arrival 10 10, arrival 0 40, arrival 60 10] :=
  sendsRight_of_fillsAll 0 opened100 opened_opened100 _ (by decide +kernel)

/-- The segment `[0, 10)` fills the first of two gaps: the ACK for 20 reports it as a block. -/
theorem not_sendsRight_of_gap_filled : Opened 0 opened100 ∧
      Run.Admissible step Allowed opened100 [arrival 10 10, arrival 30 10, arrival 0 10] ∧
      ¬ Run.Admissible step SendsRight opened100 [arrival 10 10, arrival 30 10, arrival 0 10] := by
  refine ⟨opened_opened100, by decide +kernel, fun h => ?_⟩
  obtain ⟨c', options', hwrite, -, hright⟩ := ((h.2 _ rfl).2 _ rfl).1 _ _ rfl
  obtain rfl : [.nop, .nop, .sack [⟨0, 10⟩, ⟨30, 40⟩]] = options' :=
    (Prod.mk.inj (Except.ok.inj hwrite)).2
  rw [RightOptions, if_pos (by decide +kernel)] at hright
  obtain ⟨k, items, heq, hitems⟩ := hright
  have hlast := congrArg List.getLast? heq
  rw [List.nil_append, List.getLast?_concat] at hlast
  obtain rfl := TCPOption.sack.inj (Option.some.inj hlast)
  exact absurd (hitems.blocks ⟨0, 10⟩ (by decide +kernel)).above (by decide +kernel)

end SackConnection

end Inet.Tcp
