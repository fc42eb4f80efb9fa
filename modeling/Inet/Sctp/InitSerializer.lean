import Inet.Common.StoredBytes
import Inet.Sctp.SCTPSerializer

/-!
# `SCTPSerializer::serialize` for an `INIT` chunk

The `INIT` case of `serialize` lays the structs of `sctphdr.h` over the buffer, the parameters
behind the 20 bytes of the chunk header. Every parameter begins at a multiple of four; the bytes of
the padding are not written and keep what the buffer holds.

`serializeInit_ok` says what is in the buffer afterwards.
-/

namespace Inet.Sctp.SCTPSerializer

/-- The parameter structs that `serialize` fills. -/
inductive InitParameter where
  | supportedAddressTypes (addressType₁ addressType₂ : Uint16)
  | forwardTsnSupported
  | ipv4Address (address : Uint32)
  | ipv6Address (d₀ d₁ d₂ d₃ : Uint32)
  | supportedExtensions (chunkType : Bytes)
  | random (random : Bytes)
  | chunks (value : Bytes)
  | hmacAlgo (ident : List Uint16)

namespace InitParameter

def type : InitParameter → Uint16
  | supportedAddressTypes _ _ => 12
  | forwardTsnSupported => 49152
  | ipv4Address _ => 5
  | ipv6Address _ _ _ _ => 6
  | supportedExtensions _ => 32776
  | random _ => 32770
  | chunks _ => 32771
  | hmacAlgo _ => 32772

def value : InitParameter → Bytes
  | supportedAddressTypes addressType₁ addressType₂ =>
    bytes16 addressType₁ ++ bytes16 addressType₂
  | forwardTsnSupported => []
  | ipv4Address address => bytes32 address
  | ipv6Address d₀ d₁ d₂ d₃ => bytes32 d₀ ++ (bytes32 d₁ ++ (bytes32 d₂ ++ bytes32 d₃))
  | supportedExtensions chunkType => chunkType
  | random bytes => bytes
  | chunks types => types
  | hmacAlgo ident => ident.flatMap bytes16

variable (parameter : InitParameter)

/-- The length field, which counts the type and the length as well. -/
def length : ℕ := 4 + parameter.value.length

def bytes : Bytes :=
  bytes16 parameter.type ++ (bytes16 (BitVec.ofNat 16 parameter.length) ++ parameter.value)

end InitParameter

/-- The buffer, and how much is written behind the chunk header. -/
structure InitWriter where
  buf : Bytes
  parPtr : ℕ := 0

/-- One parameter of the chunk at the address `ic`. -/
def InitWriter.put (ic : ℕ) (s : InitWriter) (parameter : InitParameter) : Result InitWriter := do
  let buf ← storeBytes s.buf (ic + 20 + s.parPtr) parameter.bytes
  .ok { buf, parPtr := s.parPtr + addPadding parameter.length }

/-- An address that is neither of IPv4 nor of IPv6 is skipped. -/
def InitWriter.putAddress (ic : ℕ) (s : InitWriter) : L3Address → Result InitWriter
  | .unspecified => .ok s
  | .ipv4 address => s.put ic (.ipv4Address address)
  | .ipv6 d₀ d₁ d₂ d₃ => s.put ic (.ipv6Address d₀ d₁ d₂ d₃)

section

variable (initChunk : SCTPInitChunk)

def supportedAddressTypes : InitParameter :=
  if initChunk.ipv4Supported && initChunk.ipv6Supported then .supportedAddressTypes 5 6
  else if initChunk.ipv4Supported then .supportedAddressTypes 5 0
  else .supportedAddressTypes 6 0

/-- The chunk types have 16 bits in the message and eight in the packet. -/
def supportedExtensions : InitParameter :=
  .supportedExtensions (initChunk.sepChunks.map lowByte)

def randomParameter : InitParameter := .random initChunk.random

def chunksParameter : InitParameter := .chunks (initChunk.chunkTypes.map lowByte)

def hmacAlgo : InitParameter := .hmacAlgo initChunk.hmacTypes

/-- What the key vector, a block of `malloc(64)`, is filled with. -/
def sizeKeyVector : ℕ :=
  (randomParameter initChunk).length + (chunksParameter initChunk).length +
    (hmacAlgo initChunk).length

/-- `padding_last` behind a parameter. -/
def paddingOf (parameter : InitParameter) : ℕ :=
  addPadding parameter.length - parameter.length

/-- The parameters of the authentication. -/
def serializeAuth (ic : ℕ) (s : InitWriter) : Result InitWriter := do
  let s ← s.put ic (randomParameter initChunk)
  let s ← s.put ic (chunksParameter initChunk)
  let s ← s.put ic (hmacAlgo initChunk)
  checkBlock (sizeKeyVector initChunk)
  .ok s

/-- The `INIT` case of `serialize`, with `writtenbytes` at `ic`. It returns the buffer and what
is added to `writtenbytes`. -/
def serializeInit (buf : Bytes) (ic : ℕ) : Result (Bytes × ℕ) := do
  let buf ← storeBytes buf ic [1, 0]
  let buf ← storeBytes buf (ic + 4)
    (bytes32 initChunk.initTag ++ (bytes32 initChunk.a_rwnd ++ (bytes16 initChunk.noOutStreams ++
      (bytes16 initChunk.noInStreams ++ bytes32 initChunk.initTSN))))
  let s : InitWriter := { buf }
  let s ← (if initChunk.ipv4Supported || initChunk.ipv6Supported then
    s.put ic (supportedAddressTypes initChunk) else .ok s)
  let s ← (if initChunk.forwardTsn then s.put ic .forwardTsnSupported else .ok s)
  let s ← initChunk.addresses.foldlM (InitWriter.putAddress ic) s
  let s ← (if initChunk.sepChunks.length > 0 then s.put ic (supportedExtensions initChunk)
    else .ok s)
  let padding_last :=
    if initChunk.sepChunks.length > 0 then paddingOf (supportedExtensions initChunk) else 0
  let s ← (if initChunk.hmacTypes.length > 0 then serializeAuth initChunk ic s else .ok s)
  let padding_last :=
    if initChunk.hmacTypes.length > 0 then paddingOf (hmacAlgo initChunk) else padding_last
  let buf ← storeBytes s.buf (ic + 2) (bytes16 (BitVec.ofNat 16 (20 + s.parPtr - padding_last)))
  .ok (buf, 20 + s.parPtr)

variable {mem : Bytes} {ic p : ℕ}

/-- The bytes that the parameters take, each with its padding. -/
def sizeOf (ps : List InitParameter) : ℕ := (ps.map fun q => addPadding q.length).sum

theorem sizeOf_cons (q : InitParameter) (ps : List InitParameter) :
    sizeOf (q :: ps) = addPadding q.length + sizeOf ps := by
  rw [sizeOf, List.map_cons, List.sum_cons, sizeOf]

/-- The parameters are in the buffer, one behind the other. -/
def Laid (mem : Bytes) (p : ℕ) : List InitParameter → Prop
  | [] => True
  | q :: qs => StoredAt mem p q.bytes ∧ Laid mem (p + addPadding q.length) qs

@[simp] theorem InitParameter.length_bytes (q : InitParameter) : q.bytes.length = q.length := by
  rw [InitParameter.bytes, List.length_append, List.length_append, length_bytes16, length_bytes16,
    InitParameter.length]
  omega

theorem le_addPadding (x : ℕ) : x ≤ addPadding x := by
  unfold addPadding
  omega

/-- A store in front of the parameters keeps them. -/
theorem Laid.memcpy {q : ℕ} {src : Bytes} {ps : List InitParameter} (h : Laid mem p ps)
    (hfit : q + src.length ≤ mem.length) (hfront : q + src.length ≤ p) :
    Laid (memcpy mem q src) p ps := by
  induction ps generalizing p with
  | nil => trivial
  | cons r ps ih =>
    exact ⟨h.1.memcpy hfit (.inr hfront), ih h.2 (by omega)⟩

/-- What the parameters are written to holds them, and keeps what is in front. -/
theorem foldlM_put {ps : List InitParameter} {s : InitWriter}
    (hroom : ic + 20 + s.parPtr + sizeOf ps ≤ s.buf.length) :
    ∃ buf', ps.foldlM (InitWriter.put ic) s = .ok ⟨buf', s.parPtr + sizeOf ps⟩ ∧
      buf'.length = s.buf.length ∧ Laid buf' (ic + 20 + s.parPtr) ps ∧
      ∀ p bytes, StoredAt s.buf p bytes → p + bytes.length ≤ ic + 20 + s.parPtr →
        StoredAt buf' p bytes := by
  induction ps generalizing s with
  | nil => exact ⟨s.buf, rfl, rfl, trivial, fun _ _ h _ => h⟩
  | cons q ps ih =>
    have hsize := sizeOf_cons q ps
    have hle := le_addPadding q.length
    have hfit : ic + 20 + s.parPtr + q.bytes.length ≤ s.buf.length := by
      rw [q.length_bytes]
      omega
    set s' : InitWriter :=
      ⟨Inet.memcpy s.buf (ic + 20 + s.parPtr) q.bytes, s.parPtr + addPadding q.length⟩ with hs'
    have hput : s.put ic q = .ok s' := by
      rw [InitWriter.put, storeBytes_of_fits hfit, ok_bind]
    have hlength : s'.buf.length = s.buf.length := length_memcpy hfit
    obtain ⟨buf', hrest, hlen, hlaid, hkeep⟩ := ih (s := s') (by
      rw [hlength, hs']
      dsimp only
      omega)
    refine ⟨buf', ?_, hlen.trans hlength, ⟨?_, ?_⟩, ?_⟩
    · rw [List.foldlM_cons, hput, hsize, ← Nat.add_assoc]
      exact hrest
    · refine hkeep _ _ (StoredAt.of_memcpy hfit) ?_
      rw [q.length_bytes, hs']
      dsimp only
      omega
    · rw [Nat.add_assoc]
      exact hlaid
    · intro p bytes hp hfront
      refine hkeep p bytes (hp.memcpy hfit (.inl hfront)) ?_
      rw [hs']
      dsimp only
      omega

end

variable (initChunk : SCTPInitChunk)

def addressParameter : L3Address → List InitParameter
  | .unspecified => []
  | .ipv4 address => [.ipv4Address address]
  | .ipv6 d₀ d₁ d₂ d₃ => [.ipv6Address d₀ d₁ d₂ d₃]

def authParameters : List InitParameter :=
  [randomParameter initChunk, chunksParameter initChunk, hmacAlgo initChunk]

/-- The parameters of a chunk, in the order in which they are written. -/
def parameters : List InitParameter :=
  (if initChunk.ipv4Supported || initChunk.ipv6Supported then [supportedAddressTypes initChunk]
    else []) ++
  ((if initChunk.forwardTsn then [.forwardTsnSupported] else []) ++
  (initChunk.addresses.flatMap addressParameter ++
  ((if initChunk.sepChunks.length > 0 then [supportedExtensions initChunk] else []) ++
  (if initChunk.hmacTypes.length > 0 then authParameters initChunk else []))))

/-- The padding that the length of the chunk leaves out. -/
def paddingLast : ℕ :=
  if initChunk.hmacTypes.length > 0 then paddingOf (hmacAlgo initChunk)
  else if initChunk.sepChunks.length > 0 then paddingOf (supportedExtensions initChunk) else 0

/-- What is added to `writtenbytes`. -/
def sizeOfInit : ℕ := 20 + sizeOf (parameters initChunk)

/-- The length field of the chunk. -/
def lengthOfInit : ℕ := sizeOfInit initChunk - paddingLast initChunk

def fixedPart : Bytes :=
  bytes32 initChunk.initTag ++ (bytes32 initChunk.a_rwnd ++ (bytes16 initChunk.noOutStreams ++
    (bytes16 initChunk.noInStreams ++ bytes32 initChunk.initTSN)))

def initHeader : Bytes :=
  [1, 0] ++ (bytes16 (BitVec.ofNat 16 (lengthOfInit initChunk)) ++ fixedPart initChunk)

variable {initChunk} {ic : ℕ} {s : InitWriter}

private theorem foldlM_if {c : Prop} [Decidable c] {q : InitParameter} :
    (if c then s.put ic q else .ok s) = (if c then [q] else []).foldlM (InitWriter.put ic) s := by
  split_ifs
  · rw [List.foldlM_cons]
    exact (bind_pure _).symm
  · rfl

private theorem foldlM_putAddress (addresses : List L3Address) :
    addresses.foldlM (InitWriter.putAddress ic) s =
      (addresses.flatMap addressParameter).foldlM (InitWriter.put ic) s := by
  induction addresses generalizing s with
  | nil => rfl
  | cons a addresses ih =>
    rw [List.foldlM_cons, List.flatMap_cons, List.foldlM_append]
    have hone : s.putAddress ic a = (addressParameter a).foldlM (InitWriter.put ic) s := by
      cases a with
      | unspecified => rfl
      | ipv4 | ipv6 => exact (bind_pure _).symm
    rw [hone]
    exact bind_congr fun _ => ih

private theorem serializeAuth_eq (hkey : sizeKeyVector initChunk ≤ 64) :
    serializeAuth initChunk ic s = (authParameters initChunk).foldlM (InitWriter.put ic) s := by
  have hcheck : checkBlock (sizeKeyVector initChunk) = .ok () := if_pos hkey
  simp only [serializeAuth, authParameters, List.foldlM_cons, List.foldlM_nil, hcheck]
  rfl

/-- The parameters are written one after the other, in whatever case each of them is. -/
private theorem foldlM_parameters (hkey : 0 < initChunk.hmacTypes.length →
      sizeKeyVector initChunk ≤ 64) :
    (do
      let s ← (if initChunk.ipv4Supported || initChunk.ipv6Supported then
        s.put ic (supportedAddressTypes initChunk) else .ok s)
      let s ← (if initChunk.forwardTsn then s.put ic .forwardTsnSupported else .ok s)
      let s ← initChunk.addresses.foldlM (InitWriter.putAddress ic) s
      let s ← (if initChunk.sepChunks.length > 0 then s.put ic (supportedExtensions initChunk)
        else .ok s)
      if initChunk.hmacTypes.length > 0 then serializeAuth initChunk ic s else .ok s) =
      (parameters initChunk).foldlM (InitWriter.put ic) s := by
  rw [parameters, List.foldlM_append, ← foldlM_if]
  refine bind_congr fun s => ?_
  rw [List.foldlM_append, ← foldlM_if]
  refine bind_congr fun s => ?_
  rw [List.foldlM_append, foldlM_putAddress]
  refine bind_congr fun s => ?_
  rw [List.foldlM_append, ← foldlM_if]
  refine bind_congr fun s => ?_
  split_ifs with h
  · exact serializeAuth_eq (hkey h)
  · rfl

/-- A chunk that fits into the buffer and into the key vector is written, and the buffer then holds
its header and its parameters. -/
theorem serializeInit_ok {buf : Bytes}
    (hkey : 0 < initChunk.hmacTypes.length → sizeKeyVector initChunk ≤ 64)
    (hroom : ic + sizeOfInit initChunk ≤ buf.length) :
    ∃ buf', serializeInit initChunk buf ic = .ok (buf', sizeOfInit initChunk) ∧
      StoredAt buf' ic (initHeader initChunk) ∧ Laid buf' (ic + 20) (parameters initChunk) := by
  rw [sizeOfInit] at hroom
  have hfixed : (fixedPart initChunk).length = 16 := rfl
  have fits₁ : ic + [(1 : UInt8), 0].length ≤ buf.length := by
    simp only [List.length_cons, List.length_nil]
    omega
  set buf₁ := memcpy buf ic [1, 0]
  have hlen₁ : buf₁.length = buf.length := length_memcpy fits₁
  have fits₂ : ic + 4 + (fixedPart initChunk).length ≤ buf₁.length := by omega
  set buf₂ := memcpy buf₁ (ic + 4) (fixedPart initChunk)
  have hlen₂ : buf₂.length = buf.length := (length_memcpy fits₂).trans hlen₁
  obtain ⟨buf₃, hwrite, hlen₃, hlaid, hkeep⟩ := @foldlM_put ic
    (parameters initChunk) { buf := buf₂ } (by dsimp only; omega)
  dsimp only at hlen₃ hlaid hkeep
  have fits₄ : ic + 2 + (bytes16 (BitVec.ofNat 16 (lengthOfInit initChunk))).length ≤
      buf₃.length := by
    rw [length_bytes16]
    omega
  have htype : StoredAt buf₃ ic [1, 0] :=
    hkeep _ _ ((StoredAt.of_memcpy fits₁).memcpy fits₂ (.inl (by simp))) (by simp)
  have hrest : StoredAt buf₃ (ic + 4) (fixedPart initChunk) :=
    hkeep _ _ (StoredAt.of_memcpy fits₂) (by omega)
  refine ⟨memcpy buf₃ (ic + 2) (bytes16 (BitVec.ofNat 16 (lengthOfInit initChunk))), ?_, ?_,
    hlaid.memcpy fits₄ (by rw [length_bytes16]; omega)⟩
  · have hsteps := @foldlM_parameters initChunk ic { buf := buf₂ } hkey
    rw [hwrite] at hsteps
    simp only [bind_eq_ok] at hsteps
    obtain ⟨s₁, h₁, s₂, h₂, s₃, h₃, s₄, h₄, h₅⟩ := hsteps
    rw [serializeInit, storeBytes_of_fits fits₁, ok_bind]
    change (storeBytes buf₁ (ic + 4) (fixedPart initChunk) >>= _) = _
    rw [storeBytes_of_fits fits₂, ok_bind]
    dsimp only
    rw [h₁, ok_bind, h₂, ok_bind, h₃, ok_bind, h₄, ok_bind, h₅, ok_bind, Nat.zero_add]
    change (storeBytes buf₃ (ic + 2)
      (bytes16 (BitVec.ofNat 16 (lengthOfInit initChunk))) >>= _) = _
    rw [storeBytes_of_fits fits₄, ok_bind]
    rfl
  · rw [initHeader, StoredAt.append_iff, StoredAt.append_iff]
    exact ⟨htype.memcpy fits₄ (.inl (by simp)), StoredAt.of_memcpy fits₄,
      hrest.memcpy fits₄ (.inr (by simp))⟩

end Inet.Sctp.SCTPSerializer
