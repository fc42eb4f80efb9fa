import Inet.Sctp.InitSerializer

/-!
# What `parse` reads back of an `INIT` chunk

The parameters of a serialized chunk are read one after the other, each with the effect
`InitParameter.apply` on the variables of the loop. `reread` is the chunk that results.

`init_roundTrips_iff` says for which chunks it is the one that was written, and the length that was
counted the one that was stored: the words of the IPv6 addresses, which are stored in network order
and read as they stand, have to be the same in both orders, the chunk types have to fit into a byte,
and without the parameters of the authentication there must be nothing that only these carry.
Neither the random vector behind which the parameters go on nor, without these parameters, the
list of extensions may be padded.
-/

namespace Inet.Sctp.SCTPSerializer

open LoopStack
open StoredAt (append_iff)
open List

section

variable {mem : Bytes} {p : ℕ} {vars : InitLoop}

/-- The block that a parameter is copied to, and the length field, are wide enough. -/
def InitParameter.Fits : InitParameter → Prop
  | supportedExtensions chunkType => 4 + chunkType.length < 2 ^ 16
  | random bytes => 4 + bytes.length ≤ 64
  | chunks types => 4 + types.length ≤ 64
  | hmacAlgo ident => 4 + 2 * ident.length ≤ 64
  | _ => True

def InitParameter.isExtensions : InitParameter → Bool
  | supportedExtensions _ => true
  | _ => false

/-- What the parser adds to `chunklen`. -/
def InitParameter.counted : InitParameter → ℕ
  | supportedAddressTypes _ _ => 8
  | forwardTsnSupported => 4
  | ipv4Address _ => 8
  | ipv6Address _ _ _ _ => 20
  | supportedExtensions chunkType => addPadding (4 + chunkType.length)
  | random bytes => 4 + bytes.length
  | chunks types => addPadding (4 + types.length)
  | hmacAlgo ident => 4 + 2 * ident.length

/-- What the parser does with a parameter. -/
def InitParameter.apply (vars : InitLoop) (q : InitParameter) : InitLoop :=
  let chunk := { vars.chunk with byteLength := vars.chunk.byteLength + q.counted }
  match q with
  | supportedAddressTypes type₁ type₂ => { vars with chunk := { chunk with
      ipv4Supported := type₁ == 5 || type₂ == 5
      ipv6Supported := type₁ == 6 || type₂ == 6 } }
  | forwardTsnSupported => { vars with chunk := { chunk with
      chunkTypes := chunk.chunkTypes ++ [49152] } }
  | ipv4Address address => { vars with chunk := { chunk with
      addresses := chunk.addresses ++ [.ipv4 address] } }
  | ipv6Address d₀ d₁ d₂ d₃ => { vars with chunk := { chunk with
      addresses := chunk.addresses ++
        [.ipv6 (byteSwap d₀) (byteSwap d₁) (byteSwap d₂) (byteSwap d₃)] } }
  | supportedExtensions chunkType => { vars with
      chkcounter := vars.chkcounter + chunkType.length
      chunk := { chunk with
        sepChunks := chunk.sepChunks ++ chunkType.map (·.toBitVec.setWidth 16) } }
  | random bytes => { vars with
      rplen := 4 + bytes.length
      chunk := { chunk with random := bytes } }
  | chunks types => { vars with
      cplen := 4 + types.length
      chunk := { chunk with chunkTypes := types.map (·.toBitVec.setWidth 16) } }
  | hmacAlgo ident => { vars with
      hplen := 4 + 2 * ident.length
      chunk := { chunk with hmacTypes := ident } }

theorem refill_length {α : Type} (zero : α) (xs new : List α) (h : new.length < 2 ^ 32) :
    refill zero xs new.length new = new := by
  have hn : ((new.length : ℤ) % 2 ^ 32).toNat = new.length := by omega
  have hdrop : (setArraySize zero xs new.length).drop new.length = [] := by
    apply drop_eq_nil_of_le
    rw [setArraySize, hn, length_append, length_take, length_replicate]
    omega
  rw [refill, hdrop, append_nil]

theorem length_flatMap_bytes16 (ws : List Uint16) :
    (ws.flatMap bytes16).length = 2 * ws.length := by
  induction ws with
  | nil => rfl
  | cons w ws ih =>
    rw [flatMap_cons, length_append, ih, length_bytes16, length_cons]
    omega

theorem InitParameter.length_hmacAlgo (ident : List Uint16) :
    (hmacAlgo ident).length = 4 + 2 * ident.length :=
  congrArg (4 + ·) (length_flatMap_bytes16 ident)

theorem InitParameter.length_lt {q : InitParameter} (h : q.Fits) : q.length < 2 ^ 16 := by
  cases q with
  | supportedExtensions => exact h
  | random | chunks => exact Nat.lt_of_le_of_lt h (by decide)
  | hmacAlgo ident =>
    rw [length_hmacAlgo]
    exact Nat.lt_of_le_of_lt h (by decide)
  | supportedAddressTypes | ipv4Address => exact (by decide : 8 < 2 ^ 16)
  | forwardTsnSupported => exact (by decide : 4 < 2 ^ 16)
  | ipv6Address => exact (by decide : 20 < 2 ^ 16)

/-- One parameter that lies in the buffer. -/
theorem parseInitParameter_apply {q : InitParameter} (h : StoredAt mem p q.bytes) (hfits : q.Fits)
    (hfirst : q.isExtensions → vars.chkcounter = 0) :
    parseInitParameter false mem p q.type q.length vars = .ok (q.apply vars) := by
  obtain ⟨-, h⟩ := append_iff.mp h
  obtain ⟨-, h⟩ := append_iff.mp h
  simp only [length_bytes16, Nat.add_assoc, Nat.reduceAdd] at h
  cases q with
  | supportedAddressTypes type₁ type₂ =>
    obtain ⟨h₁, h₂⟩ := append_iff.mp h
    have read₁ : ntohs mem (p + 4) = .ok type₁ := h₁.ntohs
    have read₂ : ntohs mem (p + 6) = .ok type₂ := h₂.ntohs
    change (ntohs mem (p + 4) >>= fun _ => ntohs mem (p + 6) >>= _) = _
    rw [read₁, ok_bind, read₂, ok_bind]
    rfl
  | forwardTsnSupported => rfl
  | ipv4Address address =>
    change (ntohl mem (p + 4) >>= _) = _
    rw [h.ntohl, ok_bind]
    rfl
  | ipv6Address d₀ d₁ d₂ d₃ =>
    obtain ⟨h₀, h⟩ := append_iff.mp h
    obtain ⟨h₁, h⟩ := append_iff.mp h
    obtain ⟨h₂, h₃⟩ := append_iff.mp h
    have read₀ : hostLong mem (p + 4) = .ok (byteSwap d₀) := h₀.hostLong
    have read₁ : hostLong mem (p + 8) = .ok (byteSwap d₁) := h₁.hostLong
    have read₂ : hostLong mem (p + 12) = .ok (byteSwap d₂) := h₂.hostLong
    have read₃ : hostLong mem (p + 16) = .ok (byteSwap d₃) := h₃.hostLong
    change (hostLong mem (p + 4) >>= fun _ => hostLong mem (p + 8) >>= fun _ =>
      hostLong mem (p + 12) >>= fun _ => hostLong mem (p + 16) >>= _) = _
    rw [read₀, ok_bind, read₁, ok_bind, read₂, ok_bind, read₃, ok_bind]
    rfl
  | supportedExtensions chunkType =>
    have hlen : 4 + chunkType.length - 4 = chunkType.length := Nat.add_sub_cancel_left ..
    have hmax : max 4 (4 + chunkType.length) = 4 + chunkType.length :=
      Nat.max_eq_right (Nat.le_add_right 4 _)
    have read : readBytes mem (p + 4) chunkType.length = .ok chunkType := h.readBytes
    change (readBytes mem (p + 4 + vars.chkcounter) (4 + chunkType.length - 4) >>=
      fun types => .ok { vars with
        chkcounter := vars.chkcounter + (4 + chunkType.length - 4)
        chunk := { vars.chunk with
          sepChunks := vars.chunk.sepChunks ++ types.map fun b : UInt8 => b.toBitVec.setWidth 16
          byteLength := vars.chunk.byteLength + addPadding (max 4 (4 + chunkType.length)) } }) = _
    rw [hfirst rfl, Nat.add_zero, hlen, read, ok_bind, hmax, ← hfirst rfl]
    rfl
  | random bytes =>
    have hrlen : ((4 + bytes.length : ℕ) : ℤ) - 4 = bytes.length := by omega
    have hblock : checkBlock (4 + bytes.length) = .ok () := if_pos hfits
    have read : readBytes mem (p + 4) bytes.length = .ok bytes := h.readBytes
    have hlt : bytes.length < 2 ^ 32 := by
      have : 4 + bytes.length ≤ 64 := hfits
      omega
    change (readBytes mem (p + 4) (((4 + bytes.length : ℕ) : ℤ) - 4).toNat >>= fun new =>
      checkBlock (4 + bytes.length) >>= fun _ => .ok { vars with
        rplen := 4 + bytes.length
        chunk := { vars.chunk with
          random := refill 0 vars.chunk.random (((4 + bytes.length : ℕ) : ℤ) - 4) new
          byteLength := vars.chunk.byteLength + (4 + bytes.length : ℕ) } }) = _
    rw [hrlen, Int.toNat_natCast, read, ok_bind, hblock, ok_bind, refill_length 0 _ _ hlt]
    rfl
  | chunks types =>
    have hnum : ((4 + types.length : ℕ) : ℤ) - 4 = types.length := by omega
    have hblock : checkBlock (4 + types.length) = .ok () := if_pos hfits
    have read : readBytes mem (p + 4) types.length = .ok types := h.readBytes
    have hlt : (types.map fun b : UInt8 => b.toBitVec.setWidth 16).length < 2 ^ 32 := by
      have : 4 + types.length ≤ 64 := hfits
      rw [length_map]
      omega
    have hrefill := refill_length 0 vars.chunk.chunkTypes _ hlt
    rw [length_map] at hrefill
    change (readBytes mem (p + 4) (((4 + types.length : ℕ) : ℤ) - 4).toNat >>= fun new =>
      checkBlock (4 + types.length) >>= fun _ => .ok { vars with
        cplen := 4 + types.length
        chunk := { vars.chunk with
          chunkTypes := refill 0 vars.chunk.chunkTypes (((4 + types.length : ℕ) : ℤ) - 4)
            (new.map fun b : UInt8 => b.toBitVec.setWidth 16)
          byteLength := vars.chunk.byteLength + addPadding (4 + types.length) } }) = _
    rw [hnum, Int.toNat_natCast, read, ok_bind, hblock, ok_bind, hrefill]
    rfl
  | hmacAlgo ident =>
    have hnum : (((4 + 2 * ident.length : ℕ) : ℤ) - 4).tdiv 2 = ident.length := by
      rw [Int.tdiv_eq_ediv_of_nonneg (by omega)]
      omega
    have hblock : checkBlock (4 + 2 * ident.length) = .ok () := if_pos hfits
    have hlt : ident.length < 2 ^ 32 := by
      have : 4 + 2 * ident.length ≤ 64 := hfits
      omega
    have read : readShorts mem (p + 4) 2 ident.length = .ok ident := h.readShorts
    rw [InitParameter.length_hmacAlgo]
    change (readShorts mem (p + 4) 2 ((((4 + 2 * ident.length : ℕ) : ℤ) - 4).tdiv 2).toNat >>=
      fun new => checkBlock
        (4 + 2 * ((((4 + 2 * ident.length : ℕ) : ℤ) - 4).tdiv 2).toNat) >>= fun _ =>
      .ok { vars with
        hplen := 4 + 2 * ident.length
        chunk := { vars.chunk with
          hmacTypes := refill 0 vars.chunk.hmacTypes
            ((((4 + 2 * ident.length : ℕ) : ℤ) - 4).tdiv 2) new
          byteLength := vars.chunk.byteLength +
            (4 + 2 * (((4 + 2 * ident.length : ℕ) : ℤ) - 4).tdiv 2) } }) = _
    rw [hnum, Int.toNat_natCast, read, ok_bind, hblock, ok_bind, refill_length 0 _ _ hlt]
    rfl

end

open InitParameter (length_hmacAlgo length_lt counted forwardTsnSupported isExtensions)

section

variable {mem : Bytes} {dest : SCTPMessage} {vars : InitLoop} {chunk cLen parptr : ℕ}
variable {fs : List Frame} {ps : List InitParameter} {q : InitParameter}

theorem addPadding_pos (q : InitParameter) : 0 < addPadding q.length := by
  have h := le_addPadding q.length
  rw [InitParameter.length] at h ⊢
  omega

theorem round_parameter (h : StoredAt mem (chunk + 20 + parptr) q.bytes) (hfits : q.Fits)
    (hfirst : q.isExtensions → vars.chkcounter = 0) (hinside : 20 + parptr < cLen)
    (hgo : vars.stopProcessing = false) :
    round ⟨mem, dest⟩ (.parameters (.init false vars) chunk cLen parptr) = .ok (⟨mem, dest⟩, .again
        (.parameters (.init false (q.apply vars)) chunk cLen (parptr + addPadding q.length))) := by
  have hparsed := parseInitParameter_apply h hfits hfirst
  obtain ⟨htype, hrest⟩ := append_iff.mp h
  obtain ⟨hlength, -⟩ := append_iff.mp hrest
  have read₁ : ntohs mem (chunk + 20 + parptr) = .ok q.type := htype.ntohs
  have read₂ : ntohs mem (chunk + 20 + parptr + 2) = .ok (BitVec.ofNat 16 q.length) :=
    hlength.ntohs
  have hnat : (BitVec.ofNat 16 q.length).toNat = q.length :=
    Nat.mod_eq_of_lt (length_lt hfits)
  have hgoes : (ParameterLoop.init false vars).headerSize + parptr < cLen ∧
      ¬ (ParameterLoop.init false vars).stopProcessing := by
    refine ⟨hinside, ?_⟩
    rw [ParameterLoop.stopProcessing, hgo]
    decide
  rw [round, if_pos hgoes]
  change (ntohs mem (chunk + 20 + parptr) >>= fun paramType =>
    ntohs mem (chunk + 20 + parptr + 2) >>= _) = _
  rw [read₁, ok_bind, read₂, ok_bind]
  simp only [hnat, ParameterLoop.parseParameter, ParameterLoop.headerSize, hparsed,
    ok_bind, ParameterLoop.advance]

/-- The loop goes on, and what is copied at its end fits. -/
structure InitLoop.Running (vars : InitLoop) : Prop where
  going : vars.stopProcessing = false
  rplen : vars.rplen ≤ 64
  cplen : vars.cplen ≤ 64
  hplen : vars.hplen ≤ 64

theorem InitLoop.Running.apply (h : vars.Running) (hfits : q.Fits) : (q.apply vars).Running := by
  obtain ⟨going, rplen, cplen, hplen⟩ := h
  cases q with
  | random => exact ⟨going, hfits, cplen, hplen⟩
  | chunks => exact ⟨going, rplen, hfits, hplen⟩
  | hmacAlgo => exact ⟨going, rplen, cplen, hfits⟩
  | supportedAddressTypes | forwardTsnSupported | ipv4Address | ipv6Address
  | supportedExtensions => exact ⟨going, rplen, cplen, hplen⟩

theorem InitParameter.chkcounter_apply (h : ¬ q.isExtensions) :
    (q.apply vars).chkcounter = vars.chkcounter := by
  cases q with
  | supportedExtensions => exact absurd rfl h
  | supportedAddressTypes | forwardTsnSupported | ipv4Address | ipv6Address | random | chunks
  | hmacAlgo => rfl

/-- The list of extensions is read from where the last one ended, so there may be one only. -/
def OneExtensions (vars : InitLoop) (ps : List InitParameter) : Prop :=
  ps.countP InitParameter.isExtensions = 0 ∨
    vars.chkcounter = 0 ∧ ps.countP InitParameter.isExtensions ≤ 1

theorem OneExtensions.cons (h : OneExtensions vars (q :: ps)) :
    (q.isExtensions → vars.chkcounter = 0) ∧ OneExtensions (q.apply vars) ps := by
  unfold OneExtensions at h
  rw [countP_cons] at h
  by_cases hq : q.isExtensions
  · rw [if_pos hq] at h
    refine ⟨fun _ => ?_, .inl ?_⟩
    · obtain h | h := h
      · omega
      · exact h.1
    · omega
  · rw [if_neg hq] at h
    refine ⟨fun h => absurd h hq, ?_⟩
    rw [OneExtensions, InitParameter.chkcounter_apply hq]
    exact h

theorem reaches_parameters (hlaid : Laid mem (chunk + 20 + parptr) ps)
    (hfits : ∀ q ∈ ps, q.Fits) (hone : OneExtensions vars ps) (hrunning : vars.Running)
    (hinside : 20 + parptr + sizeOf ps ≤ cLen) :
    Reaches round ⟨⟨mem, dest⟩, .parameters (.init false vars) chunk cLen parptr :: fs⟩
        ⟨⟨mem, dest⟩, .parameters (.init false (ps.foldl InitParameter.apply vars)) chunk cLen
          (parptr + sizeOf ps) :: fs⟩ ∧
      (ps.foldl InitParameter.apply vars).Running := by
  induction ps generalizing vars parptr with
  | nil => exact ⟨.refl, hrunning⟩
  | cons q ps ih =>
    have hsize := sizeOf_cons q ps
    have hpos := addPadding_pos q
    obtain ⟨hfirst, hone⟩ := hone.cons
    obtain ⟨hq, hrest⟩ := hlaid
    rw [Nat.add_assoc] at hrest
    have hqfits := hfits q mem_cons_self
    obtain ⟨hreach, hruns⟩ := ih hrest (fun r hr => hfits r (mem_cons_of_mem q hr)) hone
      (hrunning.apply hqfits) (by omega)
    refine ⟨?_, hruns⟩
    rw [hsize, ← Nat.add_assoc]
    exact .head (.intro fs (round_parameter hq hqfits hfirst (by omega) hrunning.going)) hreach

end

section

variable (initChunk : SCTPInitChunk)

def rereadAddress : L3Address → List L3Address
  | .unspecified => []
  | .ipv4 address => [.ipv4 address]
  | .ipv6 d₀ d₁ d₂ d₃ => [.ipv6 (byteSwap d₀) (byteSwap d₁) (byteSwap d₂) (byteSwap d₃)]

/-- A chunk type that went through the packet. -/
def rereadType (type : Uint16) : Uint16 := (lowByte type).toBitVec.setWidth 16

/-- `chunklen` at the end of the loop. -/
def chunklen : ℕ := 20 + ((parameters initChunk).map InitParameter.counted).sum

/-- The chunk that the parser adds to the message. -/
def reread : SCTPInitChunk :=
  { initTag := initChunk.initTag
    a_rwnd := initChunk.a_rwnd
    noOutStreams := initChunk.noOutStreams
    noInStreams := initChunk.noInStreams
    initTSN := initChunk.initTSN
    ipv4Supported := initChunk.ipv4Supported
    ipv6Supported := initChunk.ipv6Supported
    addresses := initChunk.addresses.flatMap rereadAddress
    sepChunks := initChunk.sepChunks.map rereadType
    random := if initChunk.hmacTypes.length > 0 then initChunk.random else []
    chunkTypes :=
      if initChunk.hmacTypes.length > 0 then initChunk.chunkTypes.map rereadType
      else if initChunk.forwardTsn then [49152] else []
    hmacTypes := initChunk.hmacTypes
    byteLength := chunklen initChunk }

/-- The variables in front of the loop. -/
def startOfLoop : InitLoop :=
  { chunk :=
      { initTag := initChunk.initTag, a_rwnd := initChunk.a_rwnd
        noOutStreams := initChunk.noOutStreams, noInStreams := initChunk.noInStreams
        initTSN := initChunk.initTSN, byteLength := 20 } }

variable {initChunk} {vars : InitLoop}

theorem foldl_supportedAddressTypes : (if initChunk.ipv4Supported || initChunk.ipv6Supported then
        [supportedAddressTypes initChunk] else []).foldl InitParameter.apply
        (startOfLoop initChunk) =
      { chunk := { (startOfLoop initChunk).chunk with
        ipv4Supported := initChunk.ipv4Supported
        ipv6Supported := initChunk.ipv6Supported
        byteLength := 20 + (((if initChunk.ipv4Supported || initChunk.ipv6Supported then
          [supportedAddressTypes initChunk] else []).map counted).sum : ℕ) } } := by
  unfold supportedAddressTypes
  cases initChunk.ipv4Supported <;> cases initChunk.ipv6Supported <;> rfl

theorem foldl_forwardTsn : (if initChunk.forwardTsn then [forwardTsnSupported] else []).foldl
        InitParameter.apply vars =
      { vars with chunk := { vars.chunk with
        chunkTypes := vars.chunk.chunkTypes ++ if initChunk.forwardTsn then [49152] else []
        byteLength := vars.chunk.byteLength + (((if initChunk.forwardTsn then
          [forwardTsnSupported] else []).map counted).sum : ℕ) } } := by
  cases initChunk.forwardTsn
  · simp
  · rfl

theorem foldl_addresses (addresses : List L3Address) :
    (addresses.flatMap addressParameter).foldl InitParameter.apply vars =
      { vars with chunk := { vars.chunk with
        addresses := vars.chunk.addresses ++ addresses.flatMap rereadAddress
        byteLength := vars.chunk.byteLength +
          (((addresses.flatMap addressParameter).map counted).sum : ℕ) } } := by
  induction addresses generalizing vars with
  | nil => simp
  | cons a addresses ih =>
    rw [flatMap_cons, foldl_append, ih]
    cases a with
    | unspecified => simp [addressParameter, rereadAddress]
    | ipv4 | ipv6 =>
      simp [addressParameter, rereadAddress, InitParameter.apply, counted, Int.add_assoc]

theorem foldl_supportedExtensions :
    ((if initChunk.sepChunks.length > 0 then [supportedExtensions initChunk] else []).foldl
        InitParameter.apply vars).chunk =
      { vars.chunk with
        sepChunks := vars.chunk.sepChunks ++ initChunk.sepChunks.map rereadType
        byteLength := vars.chunk.byteLength + (((if initChunk.sepChunks.length > 0 then
          [supportedExtensions initChunk] else []).map counted).sum : ℕ) } := by
  split_ifs with h
  · simp [supportedExtensions, InitParameter.apply, counted, rereadType]
  · have hnil : initChunk.sepChunks = [] := eq_nil_of_length_eq_zero (by omega)
    simp [hnil]

theorem foldl_auth (hauth : initChunk.hmacTypes.length = 0 → vars.chunk.hmacTypes = []) :
    ((if initChunk.hmacTypes.length > 0 then authParameters initChunk else []).foldl
        InitParameter.apply vars).chunk =
      { vars.chunk with
        random := if initChunk.hmacTypes.length > 0 then initChunk.random else vars.chunk.random
        chunkTypes :=
          if initChunk.hmacTypes.length > 0 then initChunk.chunkTypes.map rereadType
          else vars.chunk.chunkTypes
        hmacTypes := initChunk.hmacTypes
        byteLength := vars.chunk.byteLength + (((if initChunk.hmacTypes.length > 0 then
          authParameters initChunk else []).map counted).sum : ℕ) } := by
  split_ifs with h
  · simp [authParameters, randomParameter, chunksParameter, hmacAlgo, InitParameter.apply,
      counted, rereadType, Int.add_assoc]
  · have hnil : initChunk.hmacTypes = [] := eq_nil_of_length_eq_zero (by omega)
    simp [hnil, ← hauth (by omega)]

theorem chunk_foldl_parameters :
    ((parameters initChunk).foldl InitParameter.apply (startOfLoop initChunk)).chunk =
      reread initChunk := by
  rw [parameters, foldl_append, foldl_supportedAddressTypes, foldl_append,
    foldl_forwardTsn, foldl_append, foldl_addresses, foldl_append, foldl_auth,
    foldl_supportedExtensions]
  · simp [reread, startOfLoop, chunklen, parameters, Int.add_assoc]
  · intro _
    rw [foldl_supportedExtensions]
    rfl

end

section

variable {initChunk : SCTPInitChunk} {ps : List InitParameter}

theorem dvd_sizeOf : 4 ∣ sizeOf ps := by
  induction ps with
  | nil => exact Nat.dvd_zero 4
  | cons q ps ih =>
    rw [sizeOf_cons]
    exact Nat.dvd_add (Nat.dvd_mul_left 4 _) ih

theorem addPadding_le_sizeOf {q : InitParameter} (hq : q ∈ ps) :
    addPadding q.length ≤ sizeOf ps := by
  induction hq with
  | head => rw [sizeOf_cons]; exact Nat.le_add_right _ _
  | tail _ _ ih => rw [sizeOf_cons]; exact Nat.le_trans ih (Nat.le_add_left _ _)

theorem paddingOf_lt (q : InitParameter) : paddingOf q < 4 := by
  unfold paddingOf addPadding
  omega

theorem paddingLast_lt : paddingLast initChunk < 4 := by
  unfold paddingLast
  split_ifs
  · exact paddingOf_lt _
  · exact paddingOf_lt _
  · decide

/-- The parser pads the length of the chunk, and is behind the last parameter then. -/
theorem addPadding_lengthOfInit : addPadding (lengthOfInit initChunk) = sizeOfInit initChunk := by
  obtain ⟨k, hk⟩ := @dvd_sizeOf (parameters initChunk)
  have hlt := @paddingLast_lt initChunk
  rw [lengthOfInit, sizeOfInit, hk, addPadding]
  omega

/-- The padding that the parser does not count. -/
def uncounted : InitParameter → ℕ
  | .random bytes => paddingOf (.random bytes)
  | .hmacAlgo ident => paddingOf (.hmacAlgo ident)
  | _ => 0

theorem length_add_paddingOf (q : InitParameter) : q.length + paddingOf q = addPadding q.length :=
  Nat.add_sub_cancel' (le_addPadding q.length)

theorem counted_add_uncounted (q : InitParameter) :
    q.counted + uncounted q = addPadding q.length := by
  cases q with
  | random bytes => exact length_add_paddingOf (.random bytes)
  | hmacAlgo ident =>
    rw [← length_add_paddingOf, length_hmacAlgo]
    rfl
  | supportedAddressTypes | ipv4Address => exact (by decide : 8 = addPadding 8)
  | forwardTsnSupported => exact (by decide : 4 = addPadding 4)
  | ipv6Address => exact (by decide : 20 = addPadding 20)
  | supportedExtensions | chunks => rfl

theorem sum_counted_add : (ps.map counted).sum + (ps.map uncounted).sum = sizeOf ps := by
  induction ps with
  | nil => rfl
  | cons q ps ih =>
    have hq := counted_add_uncounted q
    rw [sizeOf_cons, ← ih, ← hq]
    simp only [map_cons, sum_cons]
    omega

theorem uncounted_addresses (addresses : List L3Address) :
    ((addresses.flatMap addressParameter).map uncounted).sum = 0 := by
  induction addresses with
  | nil => rfl
  | cons a addresses ih =>
    rw [flatMap_cons, map_append, sum_append, ih]
    cases a <;> rfl

/-- Between what is counted and what is written are the paddings of two parameters. -/
theorem chunklen_add : chunklen initChunk + (if initChunk.hmacTypes.length > 0 then
        paddingOf (randomParameter initChunk) + paddingOf (hmacAlgo initChunk) else 0) =
    sizeOfInit initChunk := by
  have hsum := @sum_counted_add (parameters initChunk)
  have huncounted : ((parameters initChunk).map uncounted).sum =
      if initChunk.hmacTypes.length > 0 then
        paddingOf (randomParameter initChunk) + paddingOf (hmacAlgo initChunk) else 0 := by
    have hflags : ((if initChunk.ipv4Supported || initChunk.ipv6Supported then
        [supportedAddressTypes initChunk] else []).map uncounted).sum = 0 := by
      unfold supportedAddressTypes
      cases initChunk.ipv4Supported <;> cases initChunk.ipv6Supported <;> rfl
    have hforward : ((if initChunk.forwardTsn then
        [forwardTsnSupported] else []).map uncounted).sum = 0 := by
      split_ifs <;> rfl
    have hextensions : ((if initChunk.sepChunks.length > 0 then
        [supportedExtensions initChunk] else []).map uncounted).sum = 0 := by
      split_ifs <;> rfl
    simp only [parameters, map_append, sum_append, uncounted_addresses, hflags,
      hforward, hextensions, Nat.zero_add]
    split_ifs
    · simp [authParameters, uncounted, randomParameter, chunksParameter, hmacAlgo]
    · rfl
  rw [chunklen, sizeOfInit, ← hsum, huncounted]
  omega

variable {mem : Bytes} {chunkPtr : ℕ} {dest : SCTPMessage}

theorem parameters_fit (hkey : 0 < initChunk.hmacTypes.length → sizeKeyVector initChunk ≤ 64)
    (hsize : sizeOfInit initChunk < 2 ^ 16) : ∀ q ∈ parameters initChunk, q.Fits := by
  intro q hq
  have hle := addPadding_le_sizeOf hq
  have hpadded := le_addPadding q.length
  rw [sizeOfInit] at hsize
  have hlt : q.length < 2 ^ 16 := by omega
  rw [parameters] at hq
  simp only [mem_append, mem_ite_nil_right, mem_singleton, mem_flatMap] at hq
  obtain ⟨-, rfl⟩ | ⟨-, rfl⟩ | ⟨a, -, ha⟩ | ⟨-, rfl⟩ | ⟨hauth, hq⟩ := hq
  · unfold supportedAddressTypes
    split_ifs <;> trivial
  · trivial
  · cases a with
    | unspecified => cases ha
    | ipv4 | ipv6 =>
      obtain rfl := mem_singleton.mp ha
      trivial
  · exact hlt
  · have hkeys := hkey hauth
    rw [sizeKeyVector, hmacAlgo, length_hmacAlgo, chunksParameter, randomParameter,
      InitParameter.length, InitParameter.length] at hkeys
    simp only [InitParameter.value, length_map] at hkeys
    simp only [authParameters, mem_cons, not_mem_nil, or_false] at hq
    obtain rfl | rfl | rfl := hq
    · change 4 + initChunk.random.length ≤ 64
      omega
    · change 4 + (initChunk.chunkTypes.map lowByte).length ≤ 64
      rw [length_map]
      omega
    · change 4 + 2 * initChunk.hmacTypes.length ≤ 64
      omega

theorem countP_addresses (addresses : List L3Address) :
    (addresses.flatMap addressParameter).countP isExtensions = 0 := by
  rw [countP_eq_zero]
  intro q hq
  obtain ⟨a, -, ha⟩ := mem_flatMap.mp hq
  cases a with
  | unspecified => cases ha
  | ipv4 | ipv6 =>
    obtain rfl := mem_singleton.mp ha
    exact Bool.false_ne_true

theorem oneExtensions_parameters :
    OneExtensions (startOfLoop initChunk) (parameters initChunk) := by
  have hflags : (if initChunk.ipv4Supported || initChunk.ipv6Supported then
      [supportedAddressTypes initChunk] else []).countP isExtensions = 0 := by
    unfold supportedAddressTypes
    cases initChunk.ipv4Supported <;> cases initChunk.ipv6Supported <;> rfl
  have hforward : (if initChunk.forwardTsn then [forwardTsnSupported] else
      []).countP isExtensions = 0 := by
    split_ifs <;> rfl
  have hauth : (if initChunk.hmacTypes.length > 0 then authParameters initChunk else
      []).countP isExtensions = 0 := by
    split_ifs <;> rfl
  refine .inr ⟨rfl, ?_⟩
  rw [parameters, countP_append, countP_append, countP_append, countP_append,
    hflags, hforward, countP_addresses, hauth]
  split_ifs
  · exact Nat.le_refl 1
  · exact Nat.zero_le 1

/-- The fixed part of the chunk. -/
theorem parseInit_startOfLoop (h : StoredAt mem (12 + chunkPtr + 4) (fixedPart initChunk)) :
    parseInit false mem (12 + chunkPtr) =
      .ok (.parameters (.init false (startOfLoop initChunk)) 0) := by
  obtain ⟨h₁, h⟩ := append_iff.mp h
  obtain ⟨h₂, h⟩ := append_iff.mp h
  obtain ⟨h₃, h⟩ := append_iff.mp h
  obtain ⟨h₄, h₅⟩ := append_iff.mp h
  have initTag : ntohl mem (12 + chunkPtr + 4) = .ok initChunk.initTag := h₁.ntohl
  have a_rwnd : ntohl mem (12 + chunkPtr + 8) = .ok initChunk.a_rwnd := h₂.ntohl
  have noOutStreams : ntohs mem (12 + chunkPtr + 12) = .ok initChunk.noOutStreams := h₃.ntohs
  have noInStreams : ntohs mem (12 + chunkPtr + 14) = .ok initChunk.noInStreams := h₄.ntohs
  have initTSN : ntohl mem (12 + chunkPtr + 16) = .ok initChunk.initTSN := h₅.ntohl
  rw [parseInit, initTag, ok_bind, a_rwnd, ok_bind, noOutStreams, ok_bind,
    noInStreams, ok_bind, initTSN, ok_bind]
  rfl

/-- `parse` at the chunk at `chunkPtr`, the last one of the packet. -/
theorem reaches_reread (hheader : StoredAt mem (12 + chunkPtr) (initHeader initChunk))
    (hlaid : Laid mem (12 + chunkPtr + 20) (parameters initChunk))
    (hfits : ∀ q ∈ parameters initChunk, q.Fits) (hlength : lengthOfInit initChunk < 2 ^ 16)
    (hsmall : 12 + chunkPtr + sizeOfInit initChunk < 2 ^ 32) :
    Reaches round
      ⟨⟨mem, dest⟩, [.chunks 0 (12 + chunkPtr + sizeOfInit initChunk) chunkPtr none]⟩
      ⟨⟨mem, dest.addChunk (.init (reread initChunk))⟩, []⟩ := by
  have hsize : 20 ≤ sizeOfInit initChunk := Nat.le_add_right 20 _
  have hbound : toUint32 ((12 + chunkPtr + sizeOfInit initChunk : ℕ) - 12 : ℤ) =
      chunkPtr + sizeOfInit initChunk := by
    unfold toUint32
    omega
  have hnext : toUint32 ((chunkPtr : ℤ) + (sizeOfInit initChunk : ℕ)) =
      chunkPtr + sizeOfInit initChunk := by
    unfold toUint32
    omega
  obtain ⟨hruns, hrunning⟩ := @reaches_parameters mem dest (startOfLoop initChunk)
    (12 + chunkPtr) (sizeOfInit initChunk) 0
    [.chunks 0 (12 + chunkPtr + sizeOfInit initChunk) (chunkPtr + sizeOfInit initChunk) none]
    (parameters initChunk) hlaid hfits oneExtensions_parameters ⟨rfl, Nat.zero_le 64, Nat.zero_le 64, Nat.zero_le 64⟩
    (Nat.le_refl _)
  have henter : round ⟨mem, dest⟩
      (.chunks 0 (12 + chunkPtr + sizeOfInit initChunk) chunkPtr none) =
      .ok (⟨mem, dest⟩, .enter
        (.parameters (.init false (startOfLoop initChunk)) (12 + chunkPtr)
          (sizeOfInit initChunk) 0)
        (.chunks 0 (12 + chunkPtr + sizeOfInit initChunk) (chunkPtr + sizeOfInit initChunk)
          none)) := by
    obtain ⟨htype, h⟩ := append_iff.mp hheader
    obtain ⟨hlen, hfixed⟩ := append_iff.mp h
    have readType : readByte mem (12 + chunkPtr) = .ok 1 := htype.readByte 0 rfl
    have readLength : ntohs mem (12 + chunkPtr + 2) =
        .ok (BitVec.ofNat 16 (lengthOfInit initChunk)) := hlen.ntohs
    have hnat : (BitVec.ofNat 16 (lengthOfInit initChunk)).toNat = lengthOfInit initChunk :=
      Nat.mod_eq_of_lt hlength
    have hinside : chunkPtr <
        toUint32 ((12 + chunkPtr + sizeOfInit initChunk : ℕ) - 12 : ℤ) := by omega
    have hadvance : chunkAdvance (some .INIT) (lengthOfInit initChunk) = sizeOfInit initChunk :=
      (if_neg (by decide)).trans addPadding_lengthOfInit
    rw [round, if_pos hinside, Nat.zero_add]
    dsimp only
    rw [readType, ok_bind, readLength, ok_bind]
    change (parseInit false mem (12 + chunkPtr) >>= fun parsed => .ok
      (parsed.conclude ⟨mem, dest⟩ 0 (12 + chunkPtr + sizeOfInit initChunk) chunkPtr
        (toUint32 (chunkPtr + chunkAdvance (some .INIT)
          (BitVec.ofNat 16 (lengthOfInit initChunk)).toNat))
        (addPadding (BitVec.ofNat 16 (lengthOfInit initChunk)).toNat) none)) = _
    rw [parseInit_startOfLoop hfixed, ok_bind, hnat, hadvance, hnext,
      addPadding_lengthOfInit, Parsed.conclude, Nat.zero_add]
  have hleave : round ⟨mem, dest⟩
      (.parameters (.init false ((parameters initChunk).foldl InitParameter.apply
        (startOfLoop initChunk))) (12 + chunkPtr) (sizeOfInit initChunk)
        (0 + sizeOf (parameters initChunk))) =
      .ok (⟨mem, dest.addChunk (.init (reread initChunk))⟩, .leave) := by
    have hstop : ¬ (20 + (0 + sizeOf (parameters initChunk)) < sizeOfInit initChunk) := by
      rw [sizeOfInit]
      omega
    have hrplen : checkBlock _ = .ok () := if_pos hrunning.rplen
    have hcplen : checkBlock _ = .ok () := if_pos hrunning.cplen
    have hhplen : checkBlock _ = .ok () := if_pos hrunning.hplen
    rw [round, if_neg fun h => hstop h.1, ParameterLoop.finish, chunk_foldl_parameters, hrplen,
      hcplen, hhplen]
    by_cases hauth : (reread initChunk).hmacTypes ≠ []
    · rw [if_pos hauth]
      rfl
    · rw [if_neg hauth]
      rfl
  have hend : round ⟨mem, dest.addChunk (.init (reread initChunk))⟩
      (.chunks 0 (12 + chunkPtr + sizeOfInit initChunk) (chunkPtr + sizeOfInit initChunk) none) =
      .ok (⟨mem, dest.addChunk (.init (reread initChunk))⟩, .leave) := by
    rw [round, if_neg]
    · rfl
    · omega
  exact ((Relation.ReflTransGen.single (.intro [] henter)).trans hruns).trans
    ((Relation.ReflTransGen.single (.intro _ hleave)).trans
      (Relation.ReflTransGen.single (.intro [] hend)))

end

/-- The parsed chunk says what the other one says. -/
structure SameContents (parsed initChunk : SCTPInitChunk) : Prop where
  initTag : parsed.initTag = initChunk.initTag
  a_rwnd : parsed.a_rwnd = initChunk.a_rwnd
  noOutStreams : parsed.noOutStreams = initChunk.noOutStreams
  noInStreams : parsed.noInStreams = initChunk.noInStreams
  initTSN : parsed.initTSN = initChunk.initTSN
  ipv4Supported : parsed.ipv4Supported = initChunk.ipv4Supported
  ipv6Supported : parsed.ipv6Supported = initChunk.ipv6Supported
  addresses : parsed.addresses = initChunk.addresses
  sepChunks : parsed.sepChunks = initChunk.sepChunks
  chunkTypes : parsed.chunkTypes = initChunk.chunkTypes
  random : parsed.random = initChunk.random
  hmacTypes : parsed.hmacTypes = initChunk.hmacTypes

/-- `parse` at the chunk at `chunkPtr` of a packet adds a chunk and is at the end. -/
def Parses (mem : Bytes) (bufsize chunkPtr : ℕ) (parsed : SCTPInitChunk) : Prop :=
  ∀ dest, Reaches round ⟨⟨mem, dest⟩, [.chunks 0 bufsize chunkPtr none]⟩
    ⟨⟨mem, dest.addChunk (.init parsed)⟩, []⟩

variable (initChunk : SCTPInitChunk) (buf : Bytes) (chunkPtr : ℕ)

/-- The lists fit into the key vector and the chunk into the buffer, which is no larger than that
of any caller. -/
structure Writable : Prop where
  key : 0 < initChunk.hmacTypes.length → sizeKeyVector initChunk ≤ 64
  room : 12 + chunkPtr + sizeOfInit initChunk ≤ buf.length
  small : buf.length ≤ 2 ^ 16

/-- The chunk that is parsed has the contents of the one that was written, and the length that was
counted is the one that was stored. -/
def RoundTrips : Prop :=
  ∃ mem n length parsed, serializeInit initChunk buf (12 + chunkPtr) = .ok (mem, n) ∧
    ntohs mem (12 + chunkPtr + 2) = .ok length ∧
    Parses mem (12 + chunkPtr + n) chunkPtr parsed ∧ SameContents parsed initChunk ∧
    parsed.byteLength = length.toNat

/-- The words of an IPv6 address are the same in both byte orders. -/
def SameInBothOrders : L3Address → Prop
  | .unspecified => False
  | .ipv4 _ => True
  | .ipv6 d₀ d₁ d₂ d₃ =>
    byteSwap d₀ = d₀ ∧ byteSwap d₁ = d₁ ∧ byteSwap d₂ = d₂ ∧ byteSwap d₃ = d₃

/-- Nothing of the chunk is lost in the packet. -/
structure Preserved : Prop where
  addresses : ∀ a ∈ initChunk.addresses, SameInBothOrders a
  sepChunks : ∀ type ∈ initChunk.sepChunks, type.toNat < 256
  withAuth : 0 < initChunk.hmacTypes.length →
    (∀ type ∈ initChunk.chunkTypes, type.toNat < 256) ∧ 4 ∣ initChunk.random.length
  withoutAuth : initChunk.hmacTypes.length = 0 →
    initChunk.random = [] ∧ initChunk.chunkTypes = (if initChunk.forwardTsn then [49152] else []) ∧
      4 ∣ initChunk.sepChunks.length

variable {initChunk buf chunkPtr}

theorem rereadType_eq_iff {type : Uint16} : rereadType type = type ↔ type.toNat < 256 := by
  have hnat : (rereadType type).toNat = type.toNat % 256 := by
    rw [rereadType, lowByte, BitVec.toNat_setWidth, BitVec.extractLsb'_toNat, Nat.shiftRight_zero]
    omega
  rw [← BitVec.toNat_inj, hnat]
  omega

theorem map_rereadType_iff {types : List Uint16} :
    types.map rereadType = types ↔ ∀ type ∈ types, type.toNat < 256 := by
  induction types with
  | nil => simp
  | cons type types ih =>
    rw [map_cons, List.cons.injEq, rereadType_eq_iff, ih, forall_mem_cons]

theorem length_flatMap_rereadAddress (addresses : List L3Address) :
    (addresses.flatMap rereadAddress).length ≤ addresses.length := by
  induction addresses with
  | nil => exact Nat.le_refl 0
  | cons a addresses ih =>
    have hone : (rereadAddress a).length ≤ 1 := by
      cases a with
      | unspecified => exact Nat.zero_le 1
      | ipv4 | ipv6 => exact Nat.le_refl 1
    rw [flatMap_cons, length_append, length_cons]
    omega

theorem flatMap_rereadAddress_iff {addresses : List L3Address} :
    addresses.flatMap rereadAddress = addresses ↔ ∀ a ∈ addresses, SameInBothOrders a := by
  induction addresses with
  | nil => simp
  | cons a addresses ih =>
    rw [flatMap_cons, forall_mem_cons, ← ih]
    cases a with
    | unspecified =>
      have hle := length_flatMap_rereadAddress addresses
      refine iff_of_false (fun h => ?_) (fun h => h.1)
      have hlen := congrArg List.length h
      rw [rereadAddress, nil_append, length_cons] at hlen
      omega
    | ipv4 address => simp [rereadAddress, SameInBothOrders]
    | ipv6 d₀ d₁ d₂ d₃ => simp [rereadAddress, SameInBothOrders, and_assoc]

theorem paddingOf_eq_zero_iff {q : InitParameter} : paddingOf q = 0 ↔ 4 ∣ q.length := by
  unfold paddingOf addPadding
  omega

/-- What is counted is what is stored, unless a parameter is padded whose padding is counted in one
of them only. -/
theorem chunklen_eq_iff : chunklen initChunk = lengthOfInit initChunk ↔
    (0 < initChunk.hmacTypes.length → 4 ∣ initChunk.random.length) ∧
      (initChunk.hmacTypes.length = 0 → 4 ∣ initChunk.sepChunks.length) := by
  have hadd := @chunklen_add initChunk
  have hlast := @paddingLast_lt initChunk
  have hsize : 20 ≤ sizeOfInit initChunk := Nat.le_add_right 20 _
  have hrandom : paddingOf (randomParameter initChunk) = 0 ↔ 4 ∣ initChunk.random.length := by
    rw [paddingOf_eq_zero_iff]
    exact (Nat.dvd_add_right (by decide : 4 ∣ 4))
  have hextensions : paddingOf (supportedExtensions initChunk) = 0 ↔
      4 ∣ initChunk.sepChunks.length := by
    rw [paddingOf_eq_zero_iff, supportedExtensions, InitParameter.length, InitParameter.value,
      length_map]
    exact (Nat.dvd_add_right (by decide : 4 ∣ 4))
  rw [lengthOfInit, ← hrandom, ← hextensions]
  unfold paddingLast at hlast ⊢
  split_ifs at hadd hlast ⊢ with hauth hsep
  · omega
  · omega
  · have hempty : paddingOf (supportedExtensions initChunk) = 0 := by
      rw [hextensions]
      omega
    omega

theorem sameContents_reread_iff : SameContents (reread initChunk) initChunk ↔
    (∀ a ∈ initChunk.addresses, SameInBothOrders a) ∧
      (∀ type ∈ initChunk.sepChunks, type.toNat < 256) ∧
      (0 < initChunk.hmacTypes.length → ∀ type ∈ initChunk.chunkTypes, type.toNat < 256) ∧
      (initChunk.hmacTypes.length = 0 → initChunk.random = [] ∧
        initChunk.chunkTypes = if initChunk.forwardTsn then [49152] else []) := by
  rw [← flatMap_rereadAddress_iff, ← map_rereadType_iff, ← map_rereadType_iff]
  have hcontents : SameContents (reread initChunk) initChunk ↔
      (reread initChunk).addresses = initChunk.addresses ∧
        (reread initChunk).sepChunks = initChunk.sepChunks ∧
        (reread initChunk).chunkTypes = initChunk.chunkTypes ∧
        (reread initChunk).random = initChunk.random :=
    ⟨fun h => ⟨h.addresses, h.sepChunks, h.chunkTypes, h.random⟩,
      fun ⟨h₁, h₂, h₃, h₄⟩ => ⟨rfl, rfl, rfl, rfl, rfl, rfl, rfl, h₁, h₂, h₃, h₄, rfl⟩⟩
  rw [hcontents]
  refine and_congr Iff.rfl (and_congr Iff.rfl ?_)
  simp only [reread]
  by_cases hauth : initChunk.hmacTypes.length > 0
  · have hne : initChunk.hmacTypes.length ≠ 0 := by omega
    simp [hauth, hne]
  · have heq : initChunk.hmacTypes.length = 0 := by omega
    rw [if_neg hauth, if_neg hauth]
    constructor
    · rintro ⟨htypes, hrandom⟩
      exact ⟨fun h => absurd h hauth, fun _ => ⟨hrandom.symm, htypes.symm⟩⟩
    · rintro ⟨-, hrest⟩
      obtain ⟨hrandom, htypes⟩ := hrest heq
      exact ⟨htypes.symm, hrandom.symm⟩

/-- The run of the parser that is meant is the one that `reread` describes. -/
theorem roundTrips_iff_reread (h : Writable initChunk buf chunkPtr) :
    RoundTrips initChunk buf chunkPtr ↔
      SameContents (reread initChunk) initChunk ∧ chunklen initChunk = lengthOfInit initChunk := by
  obtain ⟨mem, hserialize, hheader, hlaid⟩ := serializeInit_ok h.key h.room
  have hroom := h.room
  have hsmall := h.small
  have hle : lengthOfInit initChunk ≤ sizeOfInit initChunk := Nat.sub_le _ _
  have hlength : lengthOfInit initChunk < 2 ^ 16 := by omega
  have hreach : Parses mem (12 + chunkPtr + sizeOfInit initChunk) chunkPtr (reread initChunk) :=
    fun dest => reaches_reread hheader hlaid (parameters_fit h.key (by omega)) hlength (by omega)
  have hnat : (BitVec.ofNat 16 (lengthOfInit initChunk)).toNat = lengthOfInit initChunk :=
    Nat.mod_eq_of_lt hlength
  have hstored : ntohs mem (12 + chunkPtr + 2) = .ok (BitVec.ofNat 16 (lengthOfInit initChunk)) :=
    (append_iff.mp (append_iff.mp hheader).2).1.ntohs
  constructor
  · rintro ⟨mem', n, length, parsed, hserialize', hlen, hparses, hsame, hcount⟩
    cases hserialize.symm.trans hserialize'
    cases hstored.symm.trans hlen
    have hend := (hreach {}).eq_of_halted (hparses {}) (halted_nil _) (halted_nil _)
    have hchunks := congrArg (fun c : Config State Frame => c.state.dest.chunks) hend
    obtain rfl : reread initChunk = parsed := by
      simpa [SCTPMessage.addChunk] using hchunks
    rw [hnat] at hcount
    exact ⟨hsame, Int.ofNat.inj hcount⟩
  · rintro ⟨hsame, hcount⟩
    exact ⟨mem, _, _, reread initChunk, hserialize, hstored, hreach, hsame, by
      rw [hnat, ← hcount]
      rfl⟩

/-- A chunk that fits into the buffer and the key vector comes back as it was written, with the
length that was stored, just in case nothing of it is lost in the packet. -/
theorem init_roundTrips_iff (h : Writable initChunk buf chunkPtr) :
    RoundTrips initChunk buf chunkPtr ↔ Preserved initChunk := by
  rw [roundTrips_iff_reread h, sameContents_reread_iff, chunklen_eq_iff]
  constructor
  · rintro ⟨⟨haddresses, hsep, htypes, hrest⟩, hrandom, hextensions⟩
    exact ⟨haddresses, hsep, fun hauth => ⟨htypes hauth, hrandom hauth⟩,
      fun hauth => ⟨(hrest hauth).1, (hrest hauth).2, hextensions hauth⟩⟩
  · rintro ⟨haddresses, hsep, hwith, hwithout⟩
    exact ⟨⟨haddresses, hsep, fun hauth => (hwith hauth).1,
      fun hauth => ⟨(hwithout hauth).1, (hwithout hauth).2.1⟩⟩,
      fun hauth => (hwith hauth).2, fun hauth => (hwithout hauth).2.2⟩

/-- A chunk with an IPv4 address, extensions and the parameters of the authentication. -/
def authChunk : SCTPInitChunk :=
  { initTag := 7, a_rwnd := 65535, noOutStreams := 10, noInStreams := 10, initTSN := 1000
    forwardTsn := true, ipv4Supported := true, addresses := [.ipv4 0x0A000001]
    sepChunks := [130, 192], random := [1, 2, 3, 4], chunkTypes := [193], hmacTypes := [1]
    byteLength := 0 }

theorem writable_authChunk : Writable authChunk (newBuffer 120) 0 where
  key _ := by decide +kernel
  room := by
    rw [newBuffer, length_replicate]
    decide +kernel
  small := by
    rw [newBuffer, length_replicate]
    decide

theorem preserved_authChunk : Preserved authChunk where
  addresses := by
    intro a ha
    obtain rfl := mem_singleton.mp ha
    trivial
  sepChunks := by simp [authChunk]
  withAuth _ := ⟨by simp [authChunk], by decide⟩
  withoutAuth h := absurd h (by decide)

theorem roundTrips_authChunk : RoundTrips authChunk (newBuffer 120) 0 :=
  (init_roundTrips_iff writable_authChunk).mpr preserved_authChunk

/-- A chunk with an IPv6 address. -/
def ipv6Chunk : SCTPInitChunk :=
  { initTag := 7, a_rwnd := 65535, noOutStreams := 10, noInStreams := 10, initTSN := 1000
    ipv6Supported := true, addresses := [.ipv6 0x20010DB8 0 0 1], byteLength := 0 }

theorem writable_ipv6Chunk : Writable ipv6Chunk (newBuffer 120) 0 where
  key h := absurd h (by decide)
  room := by
    rw [newBuffer, length_replicate]
    decide +kernel
  small := by
    rw [newBuffer, length_replicate]
    decide

/-- The address comes back with the bytes of its words in reverse. -/
theorem not_roundTrips_ipv6Chunk :
    Writable ipv6Chunk (newBuffer 120) 0 ∧ ¬ RoundTrips ipv6Chunk (newBuffer 120) 0 := by
  refine ⟨writable_ipv6Chunk, fun h => ?_⟩
  have hsame := ((roundTrips_iff_reread writable_ipv6Chunk).mp h).1
  exact absurd hsame.addresses (by decide +kernel)

end Inet.Sctp.SCTPSerializer
