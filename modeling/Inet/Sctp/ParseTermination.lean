import Inet.Sctp.SCTPSerializer

/-!
# Termination of `SCTPSerializer::parse`

Every loop of `parse` advances by a length field of the packet, and only two of them
look whether it is zero. `Stalls` says on the bytes of the buffer when an iteration
leaves its loop where it is, or moves it back: the length field is zero, the position
leaves the range of `uint32`, or an `ASCONF` chunk does not begin with an IPv4
address, which the code skips with a `continue` of the chunk loop.

`parse_terminates_iff` says that this is all that can go wrong: `parse` terminates and
every iteration advances just in case no iteration that is executed to its end stalls.
-/

namespace Inet.Sctp.SCTPSerializer

open LoopStack

/-- The position of a loop; that of a call is in front of its loop. -/
def Frame.position : Frame → ℤ
  | .call _ _ _ => -1
  | .chunks _ _ chunkPtr _ => chunkPtr
  | .parameters _ _ _ parptr => parptr

/-- The first parameter of an `ASCONF` chunk is not an IPv4 address. -/
def SkipsParameters (mem : Bytes) (chunk cLen : ℕ) (chunkType : Option ChunkType) : Prop :=
  chunkType = some .ASCONF ∧ 8 < cLen ∧ ntohs mem (chunk + 8) ≠ .ok 5

/-- An iteration of the chunk loop at a chunk with the type and length given. -/
def StallsAtChunk (mem : Bytes) (chunk chunkPtr : ℕ) (chunkType : Option ChunkType)
    (length : ℕ) : Prop :=
  length = 0 ∨ 2 ^ 32 ≤ chunkPtr + chunkAdvance chunkType length ∨
    SkipsParameters mem chunk (addPadding length) chunkType

/-- The bytes at the position of a loop, which is not at its end, keep it there. -/
def Stalls (mem : Bytes) : Frame → Prop
  | .call _ _ _ => False
  | .chunks buf bufsize chunkPtr _ =>
    chunkPtr < toUint32 (bufsize - 12) ∧
      ∃ code length, readByte mem (buf + 12 + chunkPtr) = .ok code ∧
        ntohs mem (buf + 12 + chunkPtr + 2) = .ok length ∧
        StallsAtChunk mem (buf + 12 + chunkPtr) chunkPtr (ChunkType.ofCode code.toNat)
          length.toNat
  | .parameters (.forwardTsn _) _ _ _ => False
  | .parameters loop chunk cLen parptr =>
    (loop.headerSize + parptr < cLen ∧ ¬ loop.stopProcessing) ∧
      ntohs mem (chunk + loop.headerSize + parptr + 2) = .ok 0

theorem addPadding_eq_zero {x : ℕ} : addPadding x = 0 ↔ x = 0 := by
  unfold addPadding
  omega

theorem addPadding_le (x : ℕ) : addPadding x ≤ x + 3 := by
  unfold addPadding
  omega

theorem toUint32_lt (x : ℤ) : toUint32 x < 2 ^ 32 := by
  unfold toUint32
  omega

theorem toUint32_natCast (x : ℕ) : toUint32 x = x % 2 ^ 32 := by
  unfold toUint32
  omega

theorem chunkAdvance_eq_zero {chunkType : Option ChunkType} {length : ℕ} :
    chunkAdvance chunkType length = 0 ↔ length = 0 := by
  unfold chunkAdvance
  split_ifs
  · rfl
  · exact addPadding_eq_zero

theorem chunkAdvance_le (chunkType : Option ChunkType) (length : Uint16) :
    chunkAdvance chunkType length.toNat ≤ 2 ^ 16 + 3 := by
  have h := length.isLt
  have padded := addPadding_le length.toNat
  unfold chunkAdvance
  split_ifs <;> omega

/-- The next position is further on unless nothing is added or the sum does not fit. -/
theorem lt_next_iff {chunkPtr : ℕ} (h : chunkPtr < 2 ^ 32) (chunkType : Option ChunkType)
    (length : Uint16) :
    chunkPtr < toUint32 (chunkPtr + chunkAdvance chunkType length.toNat) ↔
      ¬ (length.toNat = 0 ∨ 2 ^ 32 ≤ chunkPtr + chunkAdvance chunkType length.toNat) := by
  have bound := chunkAdvance_le chunkType length
  have zero : chunkAdvance chunkType length.toNat = 0 ↔ length.toNat = 0 := chunkAdvance_eq_zero
  have next : toUint32 (chunkPtr + chunkAdvance chunkType length.toNat) =
      (chunkPtr + chunkAdvance chunkType length.toNat) % 2 ^ 32 :=
    toUint32_natCast (chunkPtr + chunkAdvance chunkType length.toNat)
  rw [next, ← zero]
  omega

/-- Only a parameter of length zero keeps the position, except for the streams of
`FORWARD_TSN`, which have a fixed size. -/
theorem ParameterLoop.advance_eq_zero {loop : ParameterLoop} (h : ∀ c, loop ≠ .forwardTsn c)
    (paramType : Uint16) (length : ℕ) : loop.advance paramType length = 0 ↔ length = 0 := by
  have padded : (addPaddingInt (length - 4) + 4).toNat = 0 ↔ length = 0 := by
    unfold addPaddingInt
    omega
  cases loop with
  | forwardTsn c => exact absurd rfl (h c)
  | heartbeat | heartbeatAck =>
    unfold ParameterLoop.advance
    split_ifs
    · exact padded
    · first | exact addPadding_eq_zero | rfl
  | init | asconf | asconfAck | reConfig => exact addPadding_eq_zero

section

variable {s t : State} {m : Move Frame} {mem : Bytes} {chunkType : Option ChunkType}
  {parsed : Parsed} {cLen chunk woPadding : ℕ}

/-- What a computation returns, if it returns, has the property. -/
private def Yields {α : Type} (P : α → Prop) (r : Result α) : Prop := ∀ a, r = .ok a → P a

private theorem Yields.bind {α β : Type} {P : β → Prop} {r : Result α} {f : α → Result β}
    (h : ∀ a, Yields P (f a)) : Yields P (r >>= f) := by
  intro b hb
  obtain ⟨a, _, hb⟩ := bind_eq_ok.mp hb
  exact h a b hb

private theorem Yields.ok {α : Type} {P : α → Prop} {a : α} (h : P a) : Yields P (.ok a) := by
  intro b hb
  cases hb
  exact h

/-- The iteration goes on behind the chunk, with the memory as it was. -/
private def Parsed.Ordinary (mem : Bytes) : Parsed → Prop
  | .done mem' _ => mem' = mem
  | .repeated => False
  | _ => True

/-- All chunk types but two are ordinary. -/
private theorem parseChunk_ordinary (hauth : chunkType ≠ some .AUTH)
    (hasconf : chunkType ≠ some .ASCONF) :
    Yields (Parsed.Ordinary mem) (parseChunk mem chunk woPadding cLen chunkType) := by
  cases chunkType with
  | none => exact .ok rfl
  | some type =>
    cases type with
    | AUTH => exact absurd rfl hauth
    | ASCONF => exact absurd rfl hasconf
    | DATA =>
      show Yields _ (parseData mem chunk woPadding cLen)
      unfold parseData
      repeat refine .bind fun _ => ?_
      exact .ok rfl
    | ERRORTYPE =>
      show Yields _ (parseError mem chunk)
      unfold parseError
      refine .bind fun _ => ?_
      split
      · exact .bind fun _ => .ok rfl
      · exact .ok rfl
    | INIT | INIT_ACK =>
      simp only [parseChunk, parseInit]
      repeat refine .bind fun _ => ?_
      exact .ok trivial
    | SACK =>
      simp only [parseChunk, parseSack]
      repeat refine .bind fun _ => ?_
      exact .ok rfl
    | COOKIE_ECHO =>
      simp only [parseChunk, parseCookieEcho]
      exact .bind fun _ => .ok rfl
    | HEARTBEAT | HEARTBEAT_ACK | RE_CONFIG => exact .ok trivial
    | COOKIE_ACK | SHUTDOWN_ACK => exact .ok rfl
    | ABORT | SHUTDOWN | SHUTDOWN_COMPLETE => exact .bind fun _ => .ok rfl
    | FORWARD_TSN | ASCONF_ACK => exact .bind fun _ => .ok trivial
    | PKTDROP => exact .bind fun _ => .bind fun _ => .bind fun _ => .bind fun _ => .ok trivial

theorem parseAuth_eq_ok (h : parseAuth mem chunk woPadding cLen = .ok parsed) :
    ∃ mem' c, parsed = .done mem' c ∧ mem'.length = mem.length := by
  simp only [parseAuth, bind_eq_ok] at h
  obtain ⟨_, _, _, _, hmac, hread, _, _, h⟩ := h
  cases h
  refine ⟨_, _, rfl, ?_⟩
  have fits : hmac = [] ∨ chunk + 8 + hmac.length ≤ mem.length := by
    split at hread
    · exact .inr (readBytes_fits hread)
    · cases hread
      exact .inl rfl
  obtain rfl | fits := fits
  · simp [memcpy]
  · simp [memcpy]
    omega

theorem parseAsconf_eq_ok (h : parseAsconf mem chunk cLen = .ok parsed) :
    (parsed = .repeated ∧ 8 < cLen ∧ ntohs mem (chunk + 8) ≠ .ok 5) ∨
    (∃ loop parptr, parsed = .parameters loop parptr) ∧
      ¬ (8 < cLen ∧ ntohs mem (chunk + 8) ≠ .ok 5) := by
  simp only [parseAsconf, bind_eq_ok] at h
  obtain ⟨_, _, h⟩ := h
  split at h
  · next long =>
      simp only [bind_eq_ok] at h
      obtain ⟨_, _, paramType, htype, h⟩ := h
      split at h
      · next other =>
          simp only [bind_eq_ok] at h
          obtain ⟨_, _, h⟩ := h
          cases h
          refine .inl ⟨rfl, long, ?_⟩
          rw [htype]
          exact fun heq => other (Except.ok.inj heq)
      · next ipv4 =>
          simp only [bind_eq_ok] at h
          obtain ⟨_, _, h⟩ := h
          cases h
          refine .inr ⟨⟨_, _, rfl⟩, fun skips => skips.2 ?_⟩
          rw [htype, Decidable.not_not.mp ipv4]
  · next short =>
      cases h
      exact .inr ⟨⟨_, _, rfl⟩, fun skips => short skips.1⟩

theorem parseChunk_mem {mem' : Bytes} {c : Option SCTPChunk}
    (h : parseChunk mem chunk woPadding cLen chunkType = .ok (.done mem' c)) :
    mem'.length = mem.length := by
  by_cases hauth : chunkType = some .AUTH
  · subst hauth
    obtain ⟨_, _, hparsed, hmem⟩ := parseAuth_eq_ok h
    cases hparsed
    exact hmem
  by_cases hasconf : chunkType = some .ASCONF
  · subst hasconf
    obtain ⟨hparsed, _⟩ | ⟨⟨_, _, hparsed⟩, _⟩ := parseAsconf_eq_ok h <;> cases hparsed
  · have same : mem' = mem := parseChunk_ordinary hauth hasconf _ h
    rw [same]

theorem parseChunk_repeated_iff (h : parseChunk mem chunk woPadding cLen chunkType = .ok parsed) :
    parsed = .repeated ↔ SkipsParameters mem chunk cLen chunkType := by
  unfold SkipsParameters
  by_cases hasconf : chunkType = some .ASCONF
  · subst hasconf
    obtain ⟨hparsed, skips⟩ | ⟨⟨_, _, hparsed⟩, skips⟩ := parseAsconf_eq_ok h
    · exact iff_of_true hparsed ⟨rfl, skips⟩
    · rw [hparsed]
      exact iff_of_false (by simp) fun h => skips h.2
  · constructor
    · rintro rfl
      by_cases hauth : chunkType = some .AUTH
      · subst hauth
        obtain ⟨_, _, hparsed, _⟩ := parseAuth_eq_ok h
        cases hparsed
      · exact (parseChunk_ordinary hauth hasconf _ h).elim
    · exact fun skips => absurd skips.1 hasconf

theorem round_call {buf bufsize : ℕ} {caller : Option SCTPMessage}
    (h : round s (.call buf bufsize caller) = .ok (t, m)) :
    t.mem = s.mem ∧ m = .again (.chunks buf bufsize 0 caller) := by
  simp only [round, bind_eq_ok] at h
  obtain ⟨dest, _, h⟩ := h
  cases h
  exact ⟨rfl, rfl⟩

theorem round_chunks {buf bufsize chunkPtr : ℕ} {caller : Option SCTPMessage}
    (h : round s (.chunks buf bufsize chunkPtr caller) = .ok (t, m)) :
    (¬ chunkPtr < toUint32 (bufsize - 12) ∧ t.mem = s.mem ∧ m = .leave) ∨
    (chunkPtr < toUint32 (bufsize - 12) ∧ ∃ code length parsed,
      readByte s.mem (buf + 12 + chunkPtr) = .ok code ∧
      ntohs s.mem (buf + 12 + chunkPtr + 2) = .ok length ∧
      parseChunk s.mem (buf + 12 + chunkPtr) length.toNat (addPadding length.toNat)
        (ChunkType.ofCode code.toNat) = .ok parsed ∧
      (t, m) = parsed.conclude s buf bufsize chunkPtr
        (toUint32 (chunkPtr + chunkAdvance (ChunkType.ofCode code.toNat) length.toNat))
        (addPadding length.toNat) caller) := by
  simp only [round] at h
  split at h
  · next inside =>
      simp only [bind_eq_ok] at h
      obtain ⟨code, hcode, length, hlength, parsed, hparsed, h⟩ := h
      exact .inr ⟨inside, code, length, parsed, hcode, hlength, hparsed, (Except.ok.inj h).symm⟩
  · next outside =>
      cases h
      exact .inl ⟨outside, rfl, rfl⟩

theorem round_parameters {loop : ParameterLoop} {parptr : ℕ}
    (h : round s (.parameters loop chunk cLen parptr) = .ok (t, m)) :
    t.mem = s.mem ∧
    ((¬ (loop.headerSize + parptr < cLen ∧ ¬ loop.stopProcessing) ∧ m = .leave) ∨
    ((loop.headerSize + parptr < cLen ∧ ¬ loop.stopProcessing) ∧
      ∃ paramType length loop', ntohs s.mem (chunk + loop.headerSize + parptr + 2) = .ok length ∧
        m = .again (.parameters loop' chunk cLen
          (parptr + loop.advance paramType length.toNat)))) := by
  simp only [round] at h
  split at h
  · next inside =>
      simp only [bind_eq_ok] at h
      obtain ⟨paramType, _, length, hlength, loop', _, h⟩ := h
      cases h
      exact ⟨rfl, .inr ⟨inside, paramType, length, loop', hlength, rfl⟩⟩
  · next outside =>
      simp only [bind_eq_ok] at h
      obtain ⟨c, _, h⟩ := h
      cases h
      exact ⟨rfl, .inl ⟨outside, rfl⟩⟩

/-- The chunk loop goes on with the next chunk, or with the same one after a `continue`. -/
theorem Parsed.conclude_continuation (parsed : Parsed) (s : State)
    (buf bufsize chunkPtr next cLen : ℕ) (caller : Option SCTPMessage) :
    (parsed.conclude s buf bufsize chunkPtr next cLen caller).2.continuation? =
      some (.chunks buf bufsize (if parsed = .repeated then chunkPtr else next) caller) := by
  cases parsed with
  | done mem c => cases c <;> simp [conclude, Move.continuation?]
  | parameters | droppedPacket | repeated => simp [conclude, Move.continuation?]

theorem stalls_chunks {mem : Bytes} {buf bufsize chunkPtr : ℕ} {caller : Option SCTPMessage}
    {code : UInt8} {length : Uint16} (inside : chunkPtr < toUint32 (bufsize - 12))
    (hcode : readByte mem (buf + 12 + chunkPtr) = .ok code)
    (hlength : ntohs mem (buf + 12 + chunkPtr + 2) = .ok length) :
    Stalls mem (.chunks buf bufsize chunkPtr caller) ↔
      StallsAtChunk mem (buf + 12 + chunkPtr) chunkPtr (ChunkType.ofCode code.toNat)
        length.toNat := by
  constructor
  · rintro ⟨_, code', length', hcode', hlength', stalls⟩
    obtain rfl := Except.ok.inj (hcode.symm.trans hcode')
    obtain rfl := Except.ok.inj (hlength.symm.trans hlength')
    exact stalls
  · exact fun stalls => ⟨inside, code, length, hcode, hlength, stalls⟩

theorem stalls_parameters {mem : Bytes} {loop : ParameterLoop} {chunk cLen parptr : ℕ}
    {length : Uint16} (inside : loop.headerSize + parptr < cLen ∧ ¬ loop.stopProcessing)
    (hlength : ntohs mem (chunk + loop.headerSize + parptr + 2) = .ok length)
    (paramType : Uint16) :
    Stalls mem (.parameters loop chunk cLen parptr) ↔ loop.advance paramType length.toNat = 0 := by
  have zero : length.toNat = 0 ↔ length = 0 := by
    rw [← BitVec.toNat_inj]
    rfl
  cases loop with
  | forwardTsn c => simp [Stalls, ParameterLoop.advance]
  | init | heartbeat | heartbeatAck | asconf | asconfAck | reConfig =>
    rw [ParameterLoop.advance_eq_zero (by simp), zero]
    simp only [Stalls, hlength]
    exact ⟨fun h => Except.ok.inj h.2, fun h => ⟨inside, congrArg Except.ok h⟩⟩

/-- A round that does not leave its loop advances it just in case it does not stall. -/
theorem advances_iff {s t : State} {f f' : Frame} {m : Move Frame}
    (h : round s f = .ok (t, m)) (hf : m.continuation? = some f') :
    f.position < f'.position ↔ ¬ Stalls s.mem f := by
  cases f with
  | call buf bufsize caller =>
    obtain ⟨_, rfl⟩ := round_call h
    cases hf
    simp [Frame.position, Stalls]
  | chunks buf bufsize chunkPtr caller =>
    obtain ⟨_, _, rfl⟩ | ⟨inside, code, length, parsed, hcode, hlength, hparsed, heq⟩ :=
      round_chunks h
    · cases hf
    · have hm := congrArg Prod.snd heq
      simp only at hm
      rw [hm, Parsed.conclude_continuation] at hf
      cases hf
      have bound : chunkPtr < 2 ^ 32 := Nat.lt_trans inside (toUint32_lt _)
      have next := lt_next_iff bound (ChunkType.ofCode code.toNat) length
      have repeats := parseChunk_repeated_iff hparsed
      rw [stalls_chunks inside hcode hlength, StallsAtChunk, ← repeats]
      simp only [Frame.position, Int.ofNat_lt]
      split_ifs with again
      · simp [again]
      · rw [next]
        simp [again]
  | parameters loop chunk cLen parptr =>
    obtain ⟨_, ⟨_, rfl⟩ | ⟨inside, paramType, length, loop', hlength, rfl⟩⟩ :=
      round_parameters h
    · cases hf
    · cases hf
      rw [stalls_parameters inside hlength paramType]
      simp only [Frame.position]
      omega

/-- A loop that stalls is not at its end. -/
theorem continuation_of_stalls {s t : State} {f : Frame} {m : Move Frame}
    (h : round s f = .ok (t, m)) (stalls : Stalls s.mem f) : ∃ f', m.continuation? = some f' := by
  cases f with
  | call => exact stalls.elim
  | chunks buf bufsize chunkPtr caller =>
    obtain ⟨outside, _, _⟩ | ⟨_, code, length, parsed, _, _, _, heq⟩ := round_chunks h
    · exact absurd stalls.1 outside
    · obtain ⟨rfl, rfl⟩ := Prod.mk.inj heq
      exact ⟨_, Parsed.conclude_continuation ..⟩
  | parameters loop chunk cLen parptr =>
    obtain ⟨_, ⟨outside, _⟩ | ⟨_, _, _, loop', _, rfl⟩⟩ := round_parameters h
    · cases loop <;> first | exact stalls.elim | exact absurd stalls.1 outside
    · exact ⟨_, rfl⟩

variable {f : Frame}

/-- How deep a loop can be nested, for a memory of `size` bytes: a dropped packet is parsed
further on in the memory. -/
def Frame.level (size : ℕ) : Frame → ℕ
  | .call buf _ _ => 2 * (size - buf) + 2
  | .chunks buf _ _ _ => 2 * (size - buf) + 1
  | .parameters _ _ _ _ => 0

/-- The distance from the end of the loop. -/
def Frame.distance : Frame → ℕ
  | .call _ _ _ => 0
  | .chunks _ _ chunkPtr _ => 2 ^ 32 - chunkPtr
  | .parameters _ _ cLen parptr => cLen - parptr

/-- A loop further in, or the same one nearer to its end. -/
def Frame.Smaller (size : ℕ) : Frame → Frame → Prop :=
  InvImage (Prod.Lex (· < ·) (· < ·)) fun f => (f.level size, f.distance)

theorem Frame.smaller_wf (size : ℕ) : WellFounded (Frame.Smaller size) :=
  InvImage.wf _ (Prod.lex Nat.lt_wfRel Nat.lt_wfRel).wf

theorem Frame.smaller_of_level {size : ℕ} {g : Frame} (h : g.level size < f.level size) :
    Frame.Smaller size g f := Prod.Lex.left _ _ h

theorem Frame.smaller_of_distance {size : ℕ} {g : Frame} (hlevel : g.level size = f.level size)
    (h : g.distance < f.distance) : Frame.Smaller size g f := by
  show Prod.Lex _ _ (g.level size, g.distance) (f.level size, f.distance)
  rw [hlevel]
  exact Prod.Lex.right _ h

theorem round_length {s t : State} {m : Move Frame} (h : round s f = .ok (t, m)) :
    t.mem.length = s.mem.length := by
  cases f with
  | call => rw [(round_call h).1]
  | chunks buf bufsize chunkPtr caller =>
    obtain ⟨_, hmem, _⟩ | ⟨_, _, _, parsed, _, _, hparsed, heq⟩ := round_chunks h
    · rw [hmem]
    · have ht := congrArg Prod.fst heq
      simp only at ht
      rw [ht]
      cases parsed with
      | done mem c => cases c <;> exact parseChunk_mem hparsed
      | parameters | droppedPacket | repeated => rfl
  | parameters => rw [(round_parameters h).1]

/-- A round that does not stall leaves smaller loops. -/
theorem round_decreasing {s t : State} {m : Move Frame} (h : round s f = .ok (t, m))
    (live : ¬ Stalls s.mem f) : ∀ g ∈ m.loops, Frame.Smaller s.mem.length g f := by
  cases f with
  | call buf bufsize caller =>
    obtain ⟨_, rfl⟩ := round_call h
    intro g hg
    obtain rfl : g = _ := List.mem_singleton.mp hg
    exact Frame.smaller_of_level (by simp only [Frame.level]; omega)
  | chunks buf bufsize chunkPtr caller =>
    obtain ⟨_, _, rfl⟩ | ⟨inside, code, length, parsed, hcode, hlength, hparsed, heq⟩ :=
      round_chunks h
    · intro g hg
      cases hg
    · have hm := congrArg Prod.snd heq
      simp only at hm
      subst hm
      have bound : chunkPtr < 2 ^ 32 := Nat.lt_trans inside (toUint32_lt _)
      have inbuf : buf + 12 + chunkPtr < s.mem.length := lt_of_readByte hcode
      have moves := (advances_iff h (Parsed.conclude_continuation ..)).mpr live
      set next := toUint32
        (chunkPtr + chunkAdvance (ChunkType.ofCode code.toNat) length.toNat) with hnext
      have forward : parsed ≠ .repeated → Frame.Smaller s.mem.length
          (.chunks buf bufsize next caller) (.chunks buf bufsize chunkPtr caller) := by
        intro hne
        rw [if_neg hne] at moves
        refine Frame.smaller_of_distance rfl ?_
        simp only [Frame.distance, Frame.position] at moves ⊢
        omega
      cases parsed with
      | done mem c =>
        intro g hg
        cases c <;>
        · obtain rfl := List.mem_singleton.mp hg
          exact forward (by simp)
      | parameters loop parptr =>
        intro g hg
        obtain rfl | hg := List.mem_cons.mp hg
        · exact Frame.smaller_of_level (by simp only [Frame.level]; omega)
        · obtain rfl := List.mem_singleton.mp hg
          exact forward (by simp)
      | droppedPacket =>
        intro g hg
        obtain rfl | hg := List.mem_cons.mp hg
        · exact Frame.smaller_of_level (by simp only [Frame.level]; omega)
        · obtain rfl := List.mem_singleton.mp hg
          exact forward (by simp)
      | repeated =>
        rw [if_pos rfl] at moves
        exact absurd moves (Int.lt_irrefl _)
  | parameters loop chunk cLen parptr =>
    obtain ⟨_, ⟨_, rfl⟩ | ⟨inside, paramType, length, loop', hlength, rfl⟩⟩ :=
      round_parameters h
    · intro g hg
      cases hg
    · intro g hg
      obtain rfl := List.mem_singleton.mp hg
      have moves := (advances_iff h rfl).mpr live
      refine Frame.smaller_of_distance rfl ?_
      simp only [Frame.distance, Frame.position] at moves ⊢
      omega

end

/-- The bytes at the innermost loop keep it where it is. -/
def StallsAt (c : Config State Frame) : Prop :=
  ∃ f fs, c.stack = f :: fs ∧ Stalls c.state.mem f

/-- An iteration of the innermost loop, if it does not end the loop, moves it forward. -/
def AdvancesAt (c : Config State Frame) : Prop :=
  ∀ f fs t m f', c.stack = f :: fs → round c.state f = .ok (t, m) →
    m.continuation? = some f' → f.position < f'.position

theorem length_of_reaches {buf : Bytes} {c : Config State Frame}
    (h : Reaches round (parse buf) c) : c.state.mem.length = buf.length := by
  refine Reaches.invariant (P := fun c => c.state.mem.length = buf.length) ?_ rfl h
  rintro _ _ hc ⟨_, hround⟩
  exact (round_length hround).trans hc

/-- `parse` terminates and all its loops advance in every iteration just in case no iteration
that is executed to its end finds a length of zero, a chunk that ends beyond the range of
`chunkPtr`, or an `ASCONF` chunk without the address. -/
theorem parse_terminates_iff (buf : Bytes) :
    (Terminates round (parse buf) ∧ ∀ c, Reaches round (parse buf) c → AdvancesAt c) ↔
      ∀ c d, Reaches round (parse buf) c → Next round c d → ¬ StallsAt c := by
  constructor
  · rintro ⟨_, advances⟩ c d reached next ⟨f, fs, hstack, stalls⟩
    cases next with
    | intro fs' hround =>
      cases hstack
      obtain ⟨f', hf'⟩ := continuation_of_stalls hround stalls
      have moves := advances _ reached _ _ _ _ f' rfl hround hf'
      exact (advances_iff hround hf').mp moves stalls
  · intro live
    constructor
    · refine terminates_of_decreasing (Frame.smaller_wf buf.length) ?_
      intro s t f fs m reached hround
      rw [← length_of_reaches reached]
      refine round_decreasing hround fun stalls => ?_
      exact live _ _ reached (.intro fs hround) ⟨f, fs, rfl, stalls⟩
    · rintro ⟨s, _⟩ reached f fs t m f' rfl hround hf'
      refine (advances_iff hround hf').mpr fun stalls => ?_
      exact live _ _ reached (.intro fs hround) ⟨f, fs, rfl, stalls⟩

/-- A `HEARTBEAT` chunk with one parameter, of an unknown type and with the length zero. -/
def zeroLengthHeartbeat : Bytes :=
  [0, 1, 0, 2, 0, 0, 0, 3, 0, 0, 0, 0, 4, 0, 0, 8, 0, 2, 0, 0]

theorem not_parse_terminates_zeroLengthHeartbeat :
    12 ≤ zeroLengthHeartbeat.length ∧ zeroLengthHeartbeat.length < 2 ^ 32 ∧
      ¬ Terminates round (parse zeroLengthHeartbeat) := by
  refine ⟨by decide, by decide, ?_⟩
  let s : State := { mem := zeroLengthHeartbeat, dest :=
    { srcPort := 1, destPort := 2, tag := 3, checksumOk := false, byteLength := 12 } }
  let chunks : Frame := .chunks 0 20 0 none
  let next : Frame := .chunks 0 20 8 none
  let info : Frame := .parameters (.heartbeat {}) 12 8 0
  have call : round { mem := zeroLengthHeartbeat, dest := {} } (.call 0 20 none) =
      .ok (s, .again chunks) := by decide +kernel
  have enter : round s chunks = .ok (s, .enter info next) := by rfl
  have stays : round s info = .ok (s, .again info) := by rfl
  have reached : Reaches round (parse zeroLengthHeartbeat) ⟨s, [info, next]⟩ :=
    .tail (.tail .refl (.intro [] call)) (.intro [] enter)
  exact not_terminates_of_fixed reached (.intro [next] stays)

end Inet.Sctp.SCTPSerializer
