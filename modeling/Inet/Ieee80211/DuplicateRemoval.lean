import Inet.Ieee80211.SequenceNumberAssignment
import Inet.Library.Run

/-!
# Removal of duplicates by a QoS station

`QoSDuplicateRemoval` remembers the number of the last frame that it has accepted, for each
transmitter and TID if it is a data frame and for each transmitter if it is a management frame.
A frame with the same number that has been sent again counts as a duplicate.

The transmitter counts in other streams: unicast data for each receiver and TID, all group
addressed frames with the shared counter. So a frame that is taken for a duplicate has been
accepted before, unless the number that is remembered is that of a group addressed frame, or one
of the same stream from thousands of frames away (`accepted_of_isDuplicate`).
-/

namespace Inet.Ieee80211

open QoSSequenceNumberAssignment (stream getCacheType Numbered)

/-- The cache for management frames of time priority is left out, as nothing is looked up in it. -/
structure QoSDuplicateRemoval where
  /-- The last seen sequence numbers for each transmitter and TID. -/
  lastSeenSeqNumCache : Std.TreeMap (ℕ ×ₗ ℕ) SequenceControlField := ∅
  lastSeenSharedSeqNumCache : Std.TreeMap ℕ SequenceControlField := ∅

namespace QoSDuplicateRemoval

section

variable {κ : Type} [Ord κ]

/-- What both branches of `isDuplicate` do with their cache. -/
def lookUp (cache : Std.TreeMap κ SequenceControlField) (key : κ)
    (seqVal : SequenceControlField) (retry : Bool) :
    Bool × Std.TreeMap κ SequenceControlField :=
  match cache[key]? with
  | none => (false, cache.insert key seqVal)
  | some last =>
    if (ofLex last).1 = (ofLex seqVal).1 ∧ (ofLex last).2 = (ofLex seqVal).2 ∧ retry then
      (true, cache)
    else (false, cache.insert key seqVal)

theorem lookUp_spec [Std.TransOrd κ] [Std.LawfulEqOrd κ] [DecidableEq κ]
    (cache : Std.TreeMap κ SequenceControlField) (key : κ) (seqVal : SequenceControlField)
    (retry : Bool) :
    ((lookUp cache key seqVal retry).1 = true ↔ cache[key]? = some seqVal ∧ retry = true) ∧
    ∀ k, (lookUp cache key seqVal retry).2[k]? =
      if (lookUp cache key seqVal retry).1 = false ∧ k = key then some seqVal else cache[k]? := by
  have hinsert : ∀ k, (cache.insert key seqVal)[k]? =
      if k = key then some seqVal else cache[k]? := by
    intro k
    rw [Std.TreeMap.getElem?_insert]
    simp only [Std.compare_eq_iff_eq]
    simp only [eq_comm]
  rw [lookUp]
  cases hlast : cache[key]? with
  | none => simp [hinsert]
  | some last =>
    have hsame : ((ofLex last).1 = (ofLex seqVal).1 ∧ (ofLex last).2 = (ofLex seqVal).2 ∧
        retry = true) ↔ last = seqVal ∧ retry = true := by
      rw [← and_assoc, ← Prod.ext_iff, ofLex_inj]
    simp only [hsame]
    by_cases h : last = seqVal ∧ retry = true
    · simp [h]
    · simp [h, hinsert]

end

def isDuplicate (removal : QoSDuplicateRemoval) (frame : Ieee80211DataOrMgmtFrame) :
    Bool × QoSDuplicateRemoval :=
  let seqVal := toLex (frame.sequenceNumber, frame.fragmentNumber)
  match frame.kind with
  | .management =>
    let (duplicate, cache) := lookUp removal.lastSeenSharedSeqNumCache frame.transmitterAddress
      seqVal frame.retry
    (duplicate, { removal with lastSeenSharedSeqNumCache := cache })
  | .data _ tid =>
    let (duplicate, cache) := lookUp removal.lastSeenSeqNumCache
      (toLex (frame.transmitterAddress, tid)) seqVal frame.retry
    (duplicate, { removal with lastSeenSeqNumCache := cache })

/-- What the caches distinguish: the transmitter and the TID of a data frame. -/
def key (frame : Ieee80211DataOrMgmtFrame) : ℕ × Option ℕ :=
  match frame.kind with
  | .management => (frame.transmitterAddress, none)
  | .data _ tid => (frame.transmitterAddress, some tid)

/-- What is remembered under a key. -/
def lastSeen (removal : QoSDuplicateRemoval) : ℕ × Option ℕ → Option SequenceControlField
  | (address, some tid) => removal.lastSeenSeqNumCache[toLex (address, tid)]?
  | (address, none) => removal.lastSeenSharedSeqNumCache[address]?

def seqVal (frame : Ieee80211DataOrMgmtFrame) : SequenceControlField :=
  toLex (frame.sequenceNumber, frame.fragmentNumber)

/-- A frame is taken for a duplicate if it has been sent again and its number is the one that is
remembered. Otherwise its number is remembered from now on. -/
theorem isDuplicate_spec (removal : QoSDuplicateRemoval) (frame : Ieee80211DataOrMgmtFrame) :
    ((removal.isDuplicate frame).1 = true ↔
      removal.lastSeen (key frame) = some (seqVal frame) ∧ frame.retry = true) ∧
    ∀ k, (removal.isDuplicate frame).2.lastSeen k =
      if (removal.isDuplicate frame).1 = false ∧ k = key frame then some (seqVal frame)
      else removal.lastSeen k := by
  rw [isDuplicate, key, seqVal]
  cases frame.kind with
  | management =>
    obtain ⟨hduplicate, hcache⟩ := lookUp_spec removal.lastSeenSharedSeqNumCache
      frame.transmitterAddress (toLex (frame.sequenceNumber, frame.fragmentNumber)) frame.retry
    refine ⟨hduplicate, ?_⟩
    rintro ⟨address, _ | tid⟩
    · simp only [lastSeen, hcache, Prod.mk.injEq, and_true]
    · simp [lastSeen]
  | data withQos tid =>
    obtain ⟨hduplicate, hcache⟩ := lookUp_spec removal.lastSeenSeqNumCache
      (toLex (frame.transmitterAddress, tid))
      (toLex (frame.sequenceNumber, frame.fragmentNumber)) frame.retry
    refine ⟨hduplicate, ?_⟩
    rintro ⟨address, _ | tid'⟩
    · simp [lastSeen]
    · simp only [lastSeen, hcache, toLex_inj, Prod.mk.injEq, Option.some.injEq]

end QoSDuplicateRemoval

open QoSDuplicateRemoval (key seqVal isDuplicate_spec)

/-- A transmitter and one receiver: the frames that the transmitter has numbered, in order, and
the fragments that the receiver has accepted, the last one first. A fragment is given by the place
of its frame in `sent` and its fragment number. -/
structure QoSLink where
  assignment : QoSSequenceNumberAssignment := {}
  sent : List Ieee80211DataOrMgmtFrame := []
  removal : QoSDuplicateRemoval := {}
  accepted : List (ℕ × ℕ) := []

namespace QoSLink

inductive Event where
  /-- The transmitter numbers a frame. -/
  | number (frame : Ieee80211DataOrMgmtFrame)
  /-- A transmission of a fragment reaches the receiver. Other transmissions are lost. -/
  | receive (i fragmentNumber : ℕ) (retry : Bool)

/-- The fragment as it is transmitted. -/
def fragment (link : QoSLink) (i fragmentNumber : ℕ) (retry : Bool) :
    Option Ieee80211DataOrMgmtFrame :=
  link.sent[i]?.map fun frame => { frame with fragmentNumber, retry }

def step (link : QoSLink) : Event → Result QoSLink
  | .number frame =>
    let (assignment, frame) := link.assignment.assignSequenceNumber frame
    .ok { link with assignment, sent := link.sent ++ [frame] }
  | .receive i fragmentNumber retry =>
    match link.fragment i fragmentNumber retry with
    | none => .error .outOfRange
    | some frame =>
      let (duplicate, removal) := link.removal.isDuplicate frame
      .ok
        { link with
          removal
          accepted := if duplicate then link.accepted
            else (i, fragmentNumber) :: link.accepted }

/-- The receiver takes the fragment for a duplicate. -/
def TakesForDuplicate (link : QoSLink) (i fragmentNumber : ℕ) (retry : Bool) : Prop :=
  ∃ frame, link.fragment i fragmentNumber retry = some frame ∧
    (link.removal.isDuplicate frame).1 = true

/-- The last frame that the receiver has accepted with the same key as `frame`. -/
def lastAccepted (link : QoSLink) (k : ℕ × Option ℕ) : Option (ℕ × ℕ) :=
  link.accepted.find? fun (i, _) =>
    link.sent[i]?.any fun frame => QoSDuplicateRemoval.key frame = k

/-- The transmitter `address` numbers management frames and QoS data frames of its own. A frame
reaches the receiver `receiver` if it is for it or for a group, and only unicast frames are sent
again. -/
def Allowed (receiver address : ℕ) (link : QoSLink) : Event → Prop
  | .number frame =>
    frame.transmitterAddress = address ∧ frame.kind.isManagementOrQos = true
  | .receive i _ retry => ∃ frame ∈ link.sent[i]?,
      (frame.receiverAddress = receiver ∨ isMulticast frame.receiverAddress = true) ∧
      (retry = true → isMulticast frame.receiverAddress = false)

instance (receiver address : ℕ) (link : QoSLink) :
    (event : Event) → Decidable (link.Allowed receiver address event)
  | .number _ => inferInstanceAs (Decidable (_ ∧ _))
  | .receive i _ _ => inferInstanceAs (Decidable (∃ frame ∈ link.sent[i]?, _))

/-- What a run keeps true. -/
structure Inv (receiver address : ℕ) (link : QoSLink) : Prop where
  numbered : ∃ pos shared, Numbered link.assignment link.sent pos shared
  sent : ∀ frame ∈ link.sent,
    frame.transmitterAddress = address ∧ frame.kind.isManagementOrQos = true
  accepted : ∀ i fragmentNumber, (i, fragmentNumber) ∈ link.accepted → ∃ frame,
    link.sent[i]? = some frame ∧
      (frame.receiverAddress = receiver ∨ isMulticast frame.receiverAddress = true)
  lastSeen : ∀ k, link.removal.lastSeen k = (link.lastAccepted k).bind fun (i, fragmentNumber) =>
    link.sent[i]?.map fun frame => toLex (frame.sequenceNumber, fragmentNumber)

theorem Inv.init (receiver address : ℕ) : Inv receiver address {} where
  numbered := ⟨_, _, Numbered.init⟩
  sent := by simp
  accepted := by simp
  lastSeen := by
    rintro ⟨k, _ | tid⟩
    · simp [QoSDuplicateRemoval.lastSeen, lastAccepted]
    · simp [QoSDuplicateRemoval.lastSeen, lastAccepted]

variable {receiver address : ℕ} {link : QoSLink}

theorem Inv.number (h : Inv receiver address link) {frame : Ieee80211DataOrMgmtFrame}
    (allowed : link.Allowed receiver address (.number frame)) :
    ∃ link', link.step (.number frame) = .ok link' ∧ Inv receiver address link' := by
  obtain ⟨pos, shared, hnumbered⟩ := h.numbered
  obtain ⟨assignment', frame', pos', shared', hassign, hframe, hnumbered'⟩ :=
    hnumbered.assignSequenceNumber frame
  refine ⟨{ link with assignment := assignment', sent := link.sent ++ [frame'] }, ?_, ?_⟩
  · rw [step, hassign]
  have hkeep : ∀ i fragmentNumber, (i, fragmentNumber) ∈ link.accepted →
      (link.sent ++ [frame'])[i]? = link.sent[i]? := by
    intro i fragmentNumber hi
    obtain ⟨g, hg, -⟩ := h.accepted i fragmentNumber hi
    exact List.getElem?_append_left (List.getElem?_eq_some_iff.mp hg).1
  refine ⟨⟨pos', shared', hnumbered'⟩, ?_, ?_, ?_⟩
  · intro g hg
    obtain hg | hg := List.mem_append.mp hg
    · exact h.sent g hg
    · obtain rfl := List.mem_singleton.mp hg
      rw [hframe]
      exact allowed
  · intro i fragmentNumber hi
    obtain ⟨g, hg, hfor⟩ := h.accepted i fragmentNumber hi
    exact ⟨g, (hkeep i fragmentNumber hi).trans hg, hfor⟩
  · intro k
    rw [h.lastSeen]
    have hlast : lastAccepted { link with
        assignment := assignment', sent := link.sent ++ [frame'] } k = link.lastAccepted k := by
      rw [lastAccepted, lastAccepted]
      refine List.find?_congr fun ⟨j, fragmentNumber⟩ hj => ?_
      simp only [hkeep j fragmentNumber hj]
    rw [hlast]
    cases hk : link.lastAccepted k with
    | none => rfl
    | some p =>
      have hmem := List.mem_of_find?_eq_some hk
      simp only [Option.bind_some, hkeep p.1 p.2 hmem]

theorem Inv.receive (h : Inv receiver address link) {i fragmentNumber : ℕ} {retry : Bool}
    (allowed : link.Allowed receiver address (.receive i fragmentNumber retry)) :
    ∃ link', link.step (.receive i fragmentNumber retry) = .ok link' ∧
      Inv receiver address link' := by
  obtain ⟨frame, hframe, hfor, -⟩ := allowed
  rw [Option.mem_def] at hframe
  obtain ⟨fragment, hfragment⟩ : ∃ fragment : Ieee80211DataOrMgmtFrame,
    fragment = { frame with fragmentNumber, retry } := ⟨_, rfl⟩
  have hsent : link.fragment i fragmentNumber retry = some fragment := by
    rw [QoSLink.fragment, hframe, hfragment]
    rfl
  have hkey : key fragment = key frame := by
    rw [hfragment]
    rfl
  obtain ⟨-, hcache⟩ := link.removal.isDuplicate_spec fragment
  obtain ⟨duplicate, removal', hremoval⟩ : ∃ duplicate removal',
    link.removal.isDuplicate fragment = (duplicate, removal') := ⟨_, _, rfl⟩
  rw [hremoval] at hcache
  have hstep : link.step (.receive i fragmentNumber retry) = .ok
      { link with
        removal := removal'
        accepted :=
          if duplicate then link.accepted else (i, fragmentNumber) :: link.accepted } := by
    simp only [step, hsent, hremoval]
  refine ⟨_, hstep, h.numbered, h.sent, ?_, fun k => ?_⟩
  · intro j fragmentNumber' hj
    simp only at hj
    split_ifs at hj
    · exact h.accepted j fragmentNumber' hj
    · obtain heq | hj := List.mem_cons.mp hj
      · obtain ⟨rfl, rfl⟩ := Prod.mk.inj heq
        exact ⟨frame, hframe, hfor⟩
      · exact h.accepted j fragmentNumber' hj
  · simp only [hcache, hkey]
    cases duplicate with
    | true =>
      rw [if_neg (by simp), h.lastSeen]
      rfl
    | false =>
      by_cases hk : k = key frame
      · have hlast : lastAccepted { link with
            removal := removal', accepted := (i, fragmentNumber) :: link.accepted } k =
            some (i, fragmentNumber) := by
          rw [lastAccepted, List.find?_cons_of_pos]
          simp [hframe, hk]
        simp only [Bool.false_eq_true, if_false, hlast]
        rw [if_pos ⟨trivial, hk⟩, Option.bind_some]
        simp only [hframe, Option.map_some, seqVal, hfragment]
      · have hlast : lastAccepted { link with
            removal := removal', accepted := (i, fragmentNumber) :: link.accepted } k =
            link.lastAccepted k := by
          rw [lastAccepted, List.find?_cons_of_neg]
          · rfl
          · simp [hframe, Ne.symm hk]
        simp only [Bool.false_eq_true, if_false, hlast]
        rw [if_neg (fun hboth => hk hboth.2), h.lastSeen]

/-- Unicast frames for one receiver have the same stream if they have the same key. -/
theorem stream_eq_of_key_eq {frame frame' : Ieee80211DataOrMgmtFrame}
    (hkey : key frame = key frame')
    (haddress : frame.receiverAddress = frame'.receiverAddress)
    (hqos : frame.kind.isManagementOrQos = true)
    (hqos' : frame'.kind.isManagementOrQos = true) :
    stream frame = stream frame' := by
  simp only [key] at hkey
  simp only [stream, getCacheType]
  cases hkind : frame.kind with
  | management =>
    cases hkind' : frame'.kind with
    | management => simp [haddress]
    | data withQos' tid' => simp [hkind, hkind'] at hkey
  | data withQos tid =>
    cases hkind' : frame'.kind with
    | management => simp [hkind, hkind'] at hkey
    | data withQos' tid' =>
      rw [hkind, hkind'] at hkey
      rw [hkind] at hqos
      rw [hkind'] at hqos'
      obtain rfl := Option.some.inj (Prod.mk.inj hkey).2
      simp only [FrameKind.isManagementOrQos] at hqos hqos'
      simp [haddress, hqos, hqos']

/-- What a fragment that is taken for a duplicate has in common with the last one that has been
accepted under its key. -/
theorem Inv.of_takesForDuplicate (h : Inv receiver address link) {i fragmentNumber : ℕ}
    {retry : Bool}
    (allowed : link.Allowed receiver address (.receive i fragmentNumber retry))
    (duplicate : link.TakesForDuplicate i fragmentNumber retry) :
    (i, fragmentNumber) ∈ link.accepted ∨ ∃ frame j last, link.sent[i]? = some frame ∧
        link.lastAccepted (key frame) = some (j, fragmentNumber) ∧
        link.sent[j]? = some last ∧
        (isMulticast last.receiverAddress = true ∨ i + 4096 ≤ j ∨ j + 4096 ≤ i) := by
  obtain ⟨frame, hframe, hfor, hunicast⟩ := allowed
  rw [Option.mem_def] at hframe
  obtain ⟨sentFrame, hsent, htrue⟩ := duplicate
  rw [fragment, hframe, Option.map_some, Option.some.injEq] at hsent
  subst hsent
  obtain ⟨hlast, hretry⟩ := (link.removal.isDuplicate_spec _).1.mp htrue
  have hsingle := hunicast hretry
  rw [h.lastSeen, Option.bind_eq_some_iff] at hlast
  obtain ⟨⟨j, fragmentNumber'⟩, hj, hnumber⟩ := hlast
  rw [Option.map_eq_some_iff] at hnumber
  obtain ⟨last, hlast, hnumber⟩ := hnumber
  obtain ⟨hseq, rfl⟩ := Prod.mk.inj (toLex_inj.mp hnumber)
  replace hj : link.lastAccepted (key frame) = some (j, fragmentNumber') := hj
  have hmem := List.mem_of_find?_eq_some hj
  have hkey : key last = key frame := by
    have := List.find?_some hj
    simpa [hlast] using this
  obtain ⟨last', hlast', hfor'⟩ := h.accepted j _ hmem
  obtain rfl : last = last' := Option.some.inj (hlast.symm.trans hlast')
  by_cases hgroup : isMulticast last.receiverAddress = true
  · exact .inr ⟨frame, j, last, hframe, hj, hlast, .inl hgroup⟩
  · -- both frames are unicast frames for the receiver
    have hself : frame.receiverAddress = receiver := by
      cases hfor with
      | inl hself => exact hself
      | inr hmulticast => simp [hsingle] at hmulticast
    have hself' : last.receiverAddress = receiver := hfor'.resolve_right hgroup
    have hstream : stream last = stream frame := stream_eq_of_key_eq hkey
      (hself'.trans hself.symm) (h.sent last (List.mem_of_getElem? hlast)).2
      (h.sent frame (List.mem_of_getElem? hframe)).2
    obtain ⟨pos, shared, hnumbered⟩ := h.numbered
    obtain hlt | rfl | hgt := Nat.lt_trichotomy i j
    · exact .inr ⟨frame, j, last, hframe, hj, hlast, .inr (.inl
        (hnumbered.far_apart hlt hframe hlast hstream.symm hseq.symm))⟩
    · exact .inl hmem
    · exact .inr ⟨frame, j, last, hframe, hj, hlast, .inr (.inr
        (hnumbered.far_apart hgt hlast hframe hstream hseq))⟩

/-- In every run, a fragment that is taken for a duplicate has been accepted before, unless the
last frame that has been accepted under its key is group addressed or at least 4096 frames away. -/
theorem accepted_of_isDuplicate (receiver address : ℕ) (events : List Event)
    (allowed : Run.Admissible step (Allowed receiver address) {} events) :
    Run.Along step (fun link event _ => ∀ i fragmentNumber retry,
      event = .receive i fragmentNumber retry → link.TakesForDuplicate i fragmentNumber retry →
      (i, fragmentNumber) ∈ link.accepted ∨ ∃ frame j last, link.sent[i]? = some frame ∧
          link.lastAccepted (QoSDuplicateRemoval.key frame) = some (j, fragmentNumber) ∧
          link.sent[j]? = some last ∧
          (isMulticast last.receiverAddress = true ∨ i + 4096 ≤ j ∨ j + 4096 ≤ i)) {} events := by
  refine Run.along_of_step (P := Inv receiver address) (fun link event h hallowed => ?_)
    (Inv.init receiver address) allowed
  cases event with
  | number frame =>
    obtain ⟨link', hstep, h'⟩ := h.number hallowed
    exact ⟨link', hstep, h', fun _ _ _ hevent => by cases hevent⟩
  | receive i fragmentNumber retry =>
    obtain ⟨link', hstep, h'⟩ := h.receive hallowed
    refine ⟨link', hstep, h', fun i' fragmentNumber' retry' hevent hduplicate => ?_⟩
    cases hevent
    exact h.of_takesForDuplicate hallowed hduplicate

/-- A beacon and two transmissions of a QoS data frame, the first of which is received. -/
theorem accepted_of_retransmission : Run.Along step (fun link event _ => ∀ i fragmentNumber retry,
      event = .receive i fragmentNumber retry → link.TakesForDuplicate i fragmentNumber retry →
      (i, fragmentNumber) ∈ link.accepted ∨ ∃ frame j last, link.sent[i]? = some frame ∧
          link.lastAccepted (QoSDuplicateRemoval.key frame) = some (j, fragmentNumber) ∧
          link.sent[j]? = some last ∧
          (isMulticast last.receiverAddress = true ∨ i + 4096 ≤ j ∨ j + 4096 ≤ i)) {}
      [.number ⟨0xffffffffffff, 1, .management, 0, 0, false⟩, .receive 0 0 false,
        .number ⟨2, 1, .data true 5, 0, 0, false⟩, .receive 1 0 false, .receive 1 0 true] :=
  accepted_of_isDuplicate 2 1 _ (by decide)

theorem admissible_replicate_number {frame : Ieee80211DataOrMgmtFrame}
    (hallowed : frame.transmitterAddress = address ∧ frame.kind.isManagementOrQos = true)
    (k : ℕ) (link : QoSLink) :
    Run.Admissible step (Allowed receiver address) link (List.replicate k (.number frame)) := by
  induction k generalizing link with
  | zero => trivial
  | succ k ih => exact ⟨hallowed, fun link' _ => ih link'⟩

/-- Unicast frames of one stream that are all lost. -/
theorem exec_replicate_number {frame : Ieee80211DataOrMgmtFrame} {tid seqNum : ℕ}
    (hstream : (stream frame).2 = some tid)
    (hlast : link.assignment.last (stream frame) = some seqNum) (k : ℕ) :
    ∃ link', Run.exec step link (List.replicate (k + 1) (.number frame)) = .ok link' ∧
      link'.removal = link.removal ∧ link'.accepted = link.accepted ∧
      link'.assignment.last (stream frame) = some ((seqNum + (k + 1)) % 4096) ∧
      ∃ more, link'.sent = link.sent ++ more ++
        [{ frame with sequenceNumber := (seqNum + (k + 1)) % 4096 }] ∧ more.length = k := by
  have hnumber : ∀ (link : QoSLink) (seqNum : ℕ),
      link.assignment.last (stream frame) = some seqNum →
      ∃ link', step link (.number frame) = .ok link' ∧ link'.removal = link.removal ∧
        link'.accepted = link.accepted ∧
        link'.assignment.last (stream frame) = some ((seqNum + 1) % 4096) ∧
        link'.sent = link.sent ++ [{ frame with sequenceNumber := (seqNum + 1) % 4096 }] := by
    intro link seqNum hlast
    obtain ⟨assignment', hassign, -, hlast'⟩ := link.assignment.assignSequenceNumber_spec frame
    have hnext : (link.assignment.next (stream frame)).1 = (seqNum + 1) % 4096 := by
      rw [QoSSequenceNumberAssignment.next, hstream, hlast]
    rw [hnext] at hassign hlast'
    refine ⟨{ link with
      assignment := assignment'
      sent := link.sent ++ [{ frame with sequenceNumber := (seqNum + 1) % 4096 }] }, ?_, rfl, rfl,
      ?_, rfl⟩
    · rw [step, hassign]
    · rw [hlast', if_pos rfl]
  induction k with
  | zero =>
    obtain ⟨link', hstep, hremoval, haccepted, hlast', hsent⟩ := hnumber link seqNum hlast
    refine ⟨link', Run.exec_cons_of_ok hstep [], hremoval, haccepted, hlast', [], ?_, rfl⟩
    rw [hsent, List.append_nil]
  | succ k ih =>
    obtain ⟨link', hexec, hremoval, haccepted, hlast', more, hsent, hmore⟩ := ih
    obtain ⟨link'', hstep, hremoval', haccepted', hlast'', hsent'⟩ := hnumber link' _ hlast'
    rw [Nat.mod_add_mod] at hlast'' hsent'
    refine ⟨link'', ?_, hremoval'.trans hremoval, haccepted'.trans haccepted, hlast'',
      more ++ [{ frame with sequenceNumber := (seqNum + (k + 1)) % 4096 }], ?_, ?_⟩
    · rw [List.replicate_succ', Run.exec_append_of_ok hexec]
      exact Run.exec_cons_of_ok hstep []
    · rw [hsent', hsent]
      simp only [List.append_assoc, Nat.add_assoc]
    · rw [List.length_append, hmore, List.length_singleton]

/-- After the run a second transmission of a fragment that has not been accepted reaches the
receiver, and is taken for a duplicate. -/
def DropsNew (receiver address : ℕ) (events : List Event) (i fragmentNumber : ℕ) : Prop :=
  ∃ link, Run.Admissible step (Allowed receiver address) {} events ∧
    Run.exec step {} events = .ok link ∧
    link.Allowed receiver address (.receive i fragmentNumber true) ∧
    link.TakesForDuplicate i fragmentNumber true ∧ (i, fragmentNumber) ∉ link.accepted

/-- The frame behind 4095 lost frames of its stream has the number of the last one that has been
accepted. -/
theorem dropsNew_of_wrap : DropsNew 2 1
    (.number ⟨2, 1, .data true 5, 0, 0, false⟩ :: .receive 0 0 false ::
      List.replicate 4096 (.number ⟨2, 1, .data true 5, 0, 0, false⟩)) 4096 0 := by
  obtain ⟨first, hfirst, hlast, hseen, haccepted, hlength⟩ : ∃ first, Run.exec step {}
      [.number ⟨2, 1, .data true 5, 0, 0, false⟩, .receive 0 0 false] = .ok first ∧
      first.assignment.last (2, some 5) = some 0 ∧
      first.removal.lastSeen (1, some 5) = some (toLex (0, 0)) ∧ first.accepted = [(0, 0)] ∧
      first.sent.length = 1 := ⟨_, rfl, rfl, rfl, rfl, rfl⟩
  obtain ⟨link, hexec, hremoval, haccepted', -, more, hsent, hmore⟩ := 
    @exec_replicate_number first ⟨2, 1, .data true 5, 0, 0, false⟩ 5 0 rfl hlast 4095
  have hframe : link.sent[4096]? = some ⟨2, 1, .data true 5, 0, 0, false⟩ := by
    rw [hsent, List.getElem?_append_right]
    · simp [hlength, hmore]
    · simp [hlength, hmore]
  have hduplicate : link.TakesForDuplicate 4096 0 true := by
    refine ⟨⟨2, 1, .data true 5, 0, 0, true⟩, ?_, ?_⟩
    · rw [fragment, hframe]
      rfl
    · rw [(isDuplicate_spec _ _).1, hremoval]
      exact ⟨hseen, rfl⟩
  refine ⟨link, ?_, ?_, ⟨_, hframe, .inl rfl, fun _ => by decide⟩, hduplicate, ?_⟩
  · refine ⟨by decide, fun link₁ h₁ => ⟨?_, fun link₂ _ =>
      admissible_replicate_number (by decide) 4096 link₂⟩⟩
    cases h₁
    decide
  · exact (Run.exec_append_of_ok hfirst _).trans hexec
  · rw [haccepted', haccepted]
    decide

/-- New frames are taken for duplicates: the one behind 4095 lost frames of its stream, and the
first management frame for the receiver behind one for a group, which has the same number. -/
theorem dropsNew_of_wrap_and_group :
    DropsNew 2 1 (.number ⟨2, 1, .data true 5, 0, 0, false⟩ :: .receive 0 0 false ::
      List.replicate 4096 (.number ⟨2, 1, .data true 5, 0, 0, false⟩)) 4096 0 ∧
    DropsNew 2 1 [.number ⟨0xffffffffffff, 1, .management, 0, 0, false⟩, .receive 0 0 false,
      .number ⟨2, 1, .management, 0, 0, false⟩] 1 0 :=
  ⟨dropsNew_of_wrap, _, by decide, rfl, by decide, ⟨_, rfl, by decide⟩, by decide⟩

end QoSLink

end Inet.Ieee80211
