import Inet.Common.ReassemblyBuffer
import Inet.Ipv4.Fragmentation

/-!
# Reassembly of datagrams

`IPv4FragBuf` keeps a reassembly buffer for each datagram that is on its way. `reassembleAndDeliver`
gives it fragments only. The pieces of a datagram, in any order and with duplicates, come
out as one datagram when the last one of them arrives (`fragments_reassemble`).

The raw bytes of a `RawPacket` are put together as well and deserialized at the end.
-/

namespace Inet.Ipv4

open IPv4

namespace IPv4FragBuf

/-- The key of a datagram's buffer. -/
structure Key where
  /-- A `ushort`. -/
  id : ℕ
  src : IPv4Address
  dest : IPv4Address
deriving DecidableEq

structure DatagramBuffer where
  buf : ReassemblyBuffer := {}
  datagram : Option IPv4Datagram := none
  /-- Not set before the first fragment has been added. -/
  lastupdate : Option ℕ := none

end IPv4FragBuf

structure IPv4FragBuf where
  /-- `none` is `bufs.end()`. -/
  bufs : IPv4FragBuf.Key → Option IPv4FragBuf.DatagramBuffer := fun _ => none

namespace IPv4FragBuf

/-- `SerializerBase::lookupAndDeserialize` with the bytes, the addresses and the protocol. -/
abbrev Deserializer := Bytes → IPv4Address → IPv4Address → ℤ → Option Packet

def keyOf (datagram : IPv4Datagram) : Key :=
  { id := toUshort datagram.identification
    src := datagram.srcAddress
    dest := datagram.destAddress }

/-- Move the raw bytes of a packet to their offset. The packet gets the length that `setLength`
computes from the new bytes. -/
def moveToOffset (setLength : Packet → Bytes → ℤ) (datagram : IPv4Datagram) : IPv4Datagram :=
  match datagram.encapsulated with
  | some packet =>
    match packet.rawBytes with
    | some bytes =>
      if datagram.fragmentOffset ≠ 0 then
        let bytes := ByteArray.expandData bytes datagram.fragmentOffset.toNat 0
        let packet := ⟨setLength packet bytes, some bytes⟩
        { datagram with encapsulated := some packet }
      else datagram
    | none => datagram
  | none => datagram

/-- Merge the raw bytes of a fragment into the stored datagram. -/
def mergeRawBytes (stored datagram : IPv4Datagram) : IPv4Datagram :=
  match rawBytes stored, rawBytes datagram with
  | some bytes, some added =>
    let bytes := ByteArray.copyDataFromBuffer bytes datagram.fragmentOffset.toNat added
    let packet := ⟨added.length, some bytes⟩
    { stored with encapsulated := some packet }
  | _, _ => stored

/-- The datagram that is stored after a fragment has arrived. -/
def store (stored : Option IPv4Datagram) (datagram : IPv4Datagram) : IPv4Datagram :=
  match stored with
  | none =>
    moveToOffset (fun packet _ => packet.byteLength + datagram.fragmentOffset) datagram
  | some stored =>
    if stored.encapsulated = none ∧ datagram.encapsulated ≠ none then
      moveToOffset (fun _ bytes => bytes.length) datagram
    else mergeRawBytes stored datagram

/-- Replace a `RawPacket` by the packet that its bytes stand for. -/
def deserialize (lookupAndDeserialize : Deserializer) (ret : IPv4Datagram) : Result IPv4Datagram :=
  match rawBytes ret with
  | some bytes =>
    match lookupAndDeserialize bytes ret.srcAddress ret.destAddress ret.transportProtocol with
    | some enc => do
        let (_, ret) ← ret.decapsulate
        ret.encapsulate enc
    | none => .ok ret
  | none => .ok ret

def addFragment (lookupAndDeserialize : Deserializer) (fragBuf : IPv4FragBuf)
    (datagram : IPv4Datagram) (now : ℕ) : Result (Option IPv4Datagram × IPv4FragBuf) := do
  let key := keyOf datagram
  let i := fragBuf.bufs key
  let buf := i.getD {}
  let bytes := toInt (datagram.byteLength - datagram.headerLength)
  let last ← checkInt (datagram.fragmentOffset + bytes)
  let (isComplete, region) ← buf.buf.addFragment
    ⟨toUshort datagram.fragmentOffset, toUshort last, !datagram.moreFragments⟩
  let stored := store buf.datagram datagram
  if isComplete then
    let ret := { stored with
      byteLength := stored.headerLength + region.getTotalLength
      fragmentOffset := 0
      moreFragments := false }
    match i with
    -- the buffer has just been created, and `i` is still `bufs.end()`
    | none => .error .invalidIterator
    | some _ =>
      let ret ← deserialize lookupAndDeserialize ret
      .ok (some ret, { bufs := Function.update fragBuf.bufs key none })
  else
    let buf := { buf := region, datagram := some stored, lastupdate := some now }
    .ok (none, { bufs := Function.update fragBuf.bufs key (some buf) })

/-- The answers to one fragment after another, each with the time of its arrival. -/
def addFragments (lookupAndDeserialize : Deserializer) :
    IPv4FragBuf → List (IPv4Datagram × ℕ) → Result (List (Option IPv4Datagram) × IPv4FragBuf)
  | fragBuf, [] => .ok ([], fragBuf)
  | fragBuf, (datagram, now) :: fed => do
      let (answer, fragBuf) ← fragBuf.addFragment lookupAndDeserialize datagram now
      let (answers, fragBuf) ← addFragments lookupAndDeserialize fragBuf fed
      .ok (answer :: answers, fragBuf)

section

open ReassemblyBuffer

variable {n b : ℤ} {pieces : List IPv4Datagram} {p : IPv4Datagram}

/-- The range of a piece as the reassembly buffer sees it. -/
def regionOf (p : IPv4Datagram) : Region :=
  ⟨toUshort p.fragmentOffset, toUshort p.rangeEnd, !p.moreFragments⟩

theorem pieces_map_regionOf (h : Consecutive false n b pieces) (hb : 0 ≤ b) (hn : n < 2 ^ 16) :
    Pieces n.toNat b.toNat (pieces.map regionOf) := by
  induction h with
  | @final b p begins _ proper ends flag =>
    rw [List.map_singleton, regionOf, begins, ends, flag, toUshort_of (by omega),
      toUshort_of (by omega)]
    exact .final (by omega)
  | @cons b e p ps begins _ proper ends flag rest ih =>
    have hlt := rest.lt
    rw [List.map_cons, regionOf, begins, ends, flag, toUshort_of (by omega), toUshort_of (by omega)]
    exact .cons (by omega) (ih (by omega))

theorem mem_map_regionOf (h : Consecutive false n 0 pieces) (hn : n < 2 ^ 16) (hp : p ∈ pieces)
    {added : List IPv4Datagram} (hadded : ∀ q ∈ added, q ∈ pieces) :
    regionOf p ∈ added.map regionOf ↔ p ∈ added := by
  constructor
  · intro hmem
    obtain ⟨q, hq, heq⟩ := List.mem_map.mp hmem
    have hoffset : q.fragmentOffset = p.fragmentOffset := by
      have hbeg : toUshort q.fragmentOffset = toUshort p.fragmentOffset :=
        congrArg Region.beg heq
      have hboundsp := h.bounds hp
      have hboundsq := h.bounds (hadded q hq)
      rw [toUshort_of (by omega), toUshort_of (by omega)] at hbeg
      omega
    exact h.eq_of_offset (hadded q hq) hp hoffset ▸ hq
  · exact List.mem_map_of_mem

/-- Two pieces at least are different. -/
theorem exists_not_mem_singleton (h : Consecutive false n b pieces) (hlen : 1 < pieces.length)
    (p : IPv4Datagram) : ∃ q ∈ pieces, q ∉ [p] := by
  cases h with
  | final => exact absurd hlen (lt_irrefl 1)
  | @cons _ e p' ps begins _ proper ends _ rest =>
    by_cases hp : p' = p
    · obtain ⟨q, hq⟩ := List.exists_mem_of_length_pos (Nat.lt_of_succ_lt_succ hlen)
      refine ⟨q, List.mem_cons_of_mem _ hq, fun hmem => ?_⟩
      have hbounds := rest.bounds hq
      rw [List.mem_singleton.mp hmem, ← hp] at hbounds
      omega
    · exact ⟨p', List.mem_cons_self, fun hmem => hp (List.mem_singleton.mp hmem)⟩

end

section

open ReassemblyBuffer

variable {ip : IPv4} {headerLength n : ℤ} {d p : IPv4Datagram} {src : IPv4Address} {key : Key}
variable {fed pieces : List IPv4Datagram} {fragBuf : IPv4FragBuf}
variable (lookupAndDeserialize : Deserializer)

/-- A stored datagram whose payload is not a `RawPacket`. -/
structure Stored (headerLength : ℤ) (stored : IPv4Datagram) : Prop where
  header : stored.headerLength = headerLength
  encapsulates : stored.encapsulated ≠ none
  notRaw : rawBytes stored = none

/-- The buffer with the key has the fragments of `fed`. -/
structure Collects (key : Key) (headerLength : ℤ) (fed : List IPv4Datagram)
    (fragBuf : IPv4FragBuf) : Prop where
  created : fed ≠ [] → fragBuf.bufs key ≠ none
  regions : ∃ complete, ReassemblyBuffer.addFragments (fed.map regionOf) =
    .ok (complete, ((fragBuf.bufs key).getD {}).buf)
  stored : ∀ s, ((fragBuf.bufs key).getD {}).datagram = some s → Stored headerLength s

/-- The datagram that `addFragment` returns. -/
structure Whole (headerLength n : ℤ) (ret : IPv4Datagram) : Prop where
  byteLength : ret.byteLength = headerLength + n
  fragmentOffset : ret.fragmentOffset = 0
  moreFragments : ret.moreFragments = false

/-- The pieces of one datagram that is to be reassembled. -/
structure Reassembled (ip : IPv4) (headerLength n : ℤ) (d : IPv4Datagram) (src : IPv4Address)
    (pieces : List IPv4Datagram) : Prop where
  consecutive : Consecutive false n 0 pieces
  travels : ∀ p ∈ pieces, Travels ip headerLength d src p
  notRaw : rawBytes d = none
  short : n < 2 ^ 16
  several : 1 < pieces.length

theorem Collects.empty (h : fragBuf.bufs key = none) : Collects key headerLength [] fragBuf where
  created := fun hne => absurd rfl hne
  regions := ⟨false, by rw [h]; rfl⟩
  stored := by
    rw [h]
    exact fun _ hs => nomatch hs

theorem stored_of_travels (h : Travels ip headerLength d src p) (hraw : rawBytes d = none) :
    Stored headerLength p where
  header := h.sendable.header
  encapsulates := by
    obtain ⟨packet, hpacket, -⟩ := h.sendable.encapsulates
    rw [hpacket]
    exact Option.some_ne_none packet
  notRaw := h.rawBytes.trans hraw

theorem moveToOffset_eq {setLength : Packet → Bytes → ℤ} (h : rawBytes p = none) :
    moveToOffset setLength p = p := by
  rw [moveToOffset]
  cases hpacket : p.encapsulated with
  | none => rfl
  | some packet =>
    have hraw : packet.rawBytes = none := by rwa [rawBytes, hpacket] at h
    simp only [hraw]

/-- Only the first fragment is stored. -/
theorem stored_store (hp : Stored headerLength p) {stored : Option IPv4Datagram}
    (h : ∀ s, stored = some s → Stored headerLength s) : Stored headerLength (store stored p) := by
  cases stored with
  | none =>
    rw [store, moveToOffset_eq hp.notRaw]
    exact hp
  | some s =>
    have hs := h s rfl
    have hne : ¬ (s.encapsulated = none ∧ p.encapsulated ≠ none) :=
      fun hnone => hs.encapsulates hnone.1
    simp only [store, if_neg hne, mergeRawBytes, hs.notRaw]
    exact hs

theorem deserialize_eq (h : rawBytes p = none) : deserialize lookupAndDeserialize p = .ok p := by
  simp only [deserialize, h]

theorem collects_of_bufs {buf : DatagramBuffer} (hbuf : fragBuf.bufs key = some buf)
    (hregions : ∃ complete, ReassemblyBuffer.addFragments (fed.map regionOf) =
      .ok (complete, buf.buf))
    (hstored : ∀ s, buf.datagram = some s → Stored headerLength s) :
    Collects key headerLength fed fragBuf := by
  constructor
  · rw [hbuf]
    exact fun _ => Option.some_ne_none buf
  · rwa [hbuf]
  · rwa [hbuf]

/-- One more piece: it completes the datagram, or it is collected. -/
theorem Collects.addFragment (h : Collects key headerLength fed fragBuf)
    (hd : Reassembled ip headerLength n d src pieces)
    (hkey : key = ⟨toUshort d.identification, src, d.destAddress⟩)
    (hfed : ∀ q ∈ fed, q ∈ pieces) (hp : p ∈ pieces) (now : ℕ) :
    ((∀ q ∈ pieces, q ∈ fed ++ [p]) → ∃ ret fragBuf',
      fragBuf.addFragment lookupAndDeserialize p now = .ok (some ret, fragBuf') ∧
        Whole headerLength n ret) ∧
    ((∃ q ∈ pieces, q ∉ fed ++ [p]) → ∃ fragBuf',
      fragBuf.addFragment lookupAndDeserialize p now = .ok (none, fragBuf') ∧
        Collects key headerLength (fed ++ [p]) fragBuf') := by
  have htravels := hd.travels p hp
  have hbounds := hd.consecutive.bounds hp
  have hshort := hd.short
  have hkeyOf : keyOf p = key := by
    rw [keyOf, htravels.identification, htravels.srcAddress, htravels.destAddress, hkey]
  have hadded : ∀ q ∈ fed ++ [p], q ∈ pieces := by
    intro q hq
    obtain hq | hq := List.mem_append.mp hq
    · exact hfed q hq
    · exact List.mem_singleton.mp hq ▸ hp
  -- what the reassembly buffer answers
  have hps := pieces_map_regionOf hd.consecutive le_rfl hshort
  have hdrawn : ∀ r ∈ (fed ++ [p]).map regionOf, r ∈ pieces.map regionOf := by
    intro r hr
    obtain ⟨q, hq, rfl⟩ := List.mem_map.mp hr
    exact List.mem_map_of_mem (hadded q hq)
  obtain ⟨complete, region, hadd, hcomplete, htotal⟩ := addFragments_complete hps hdrawn
  have hiff : complete = true ↔ ∀ q ∈ pieces, q ∈ fed ++ [p] := by
    rw [hcomplete, List.forall_mem_map]
    exact forall₂_congr fun q hq => mem_map_regionOf hd.consecutive hshort hq hadded
  obtain ⟨before, hbefore⟩ := h.regions
  have hregion : ((fragBuf.bufs key).getD {}).buf.addFragment (regionOf p) =
      .ok (complete, region) := by
    rw [List.map_append, List.map_singleton, addFragments_concat, hbefore, ok_bind] at hadd
    exact hadd
  have hstored := stored_store (stored_of_travels htravels hd.notRaw) h.stored
  have hint : checkInt (p.fragmentOffset + toInt (p.byteLength - p.headerLength)) =
      .ok p.rangeEnd := by
    have hproper := htravels.sendable.proper
    have hlengths := htravels.sendable.lengths
    have hnonneg := htravels.sendable.nonneg
    have hpayload : p.payloadLength = p.byteLength - p.headerLength := rfl
    rw [toInt_of (by omega), checkInt_of (by omega)]
    rfl
  have hregion' : ((fragBuf.bufs key).getD {}).buf.addFragment
      ⟨toUshort p.fragmentOffset, toUshort p.rangeEnd, !p.moreFragments⟩ =
        .ok (complete, region) := hregion
  simp only [IPv4FragBuf.addFragment, hkeyOf, hint, hregion', ok_bind]
  constructor
  · intro hall
    obtain rfl : complete = true := hiff.mpr hall
    cases hbuf : fragBuf.bufs key with
    | none =>
      have hfirst : fed = [] := by_contra fun hne => h.created hne hbuf
      obtain ⟨q, hq, hnot⟩ := exists_not_mem_singleton hd.consecutive hd.several p
      rw [hfirst] at hall
      exact absurd (hall q hq) hnot
    | some buf =>
      rw [hbuf] at hstored
      simp only [if_true, Option.getD_some]
      rw [deserialize_eq lookupAndDeserialize, ok_bind]
      · refine ⟨_, _, rfl, ?_, rfl, rfl⟩
        have hheader : (store buf.datagram p).headerLength = headerLength := hstored.header
        have hlt := hd.consecutive.lt
        show (store buf.datagram p).headerLength + (region.getTotalLength : ℤ) = headerLength + n
        rw [hheader, htotal rfl, Int.toNat_of_nonneg hlt.le]
      · exact hstored.notRaw
  · rintro ⟨q, hq, hnot⟩
    obtain rfl : complete = false := by
      rw [← Bool.not_eq_true, hiff]
      exact fun hall => hnot (hall q hq)
    refine ⟨_, rfl, collects_of_bufs (Function.update_self key _ _) ⟨false, hadd⟩ fun s hs => ?_⟩
    cases hs
    exact hstored

theorem addFragments_concat (fragBuf : IPv4FragBuf) (fed : List (IPv4Datagram × ℕ))
    (p : IPv4Datagram) (now : ℕ) :
    addFragments lookupAndDeserialize fragBuf (fed ++ [(p, now)]) = (do
      let (answers, fragBuf) ← addFragments lookupAndDeserialize fragBuf fed
      let (answer, fragBuf) ← fragBuf.addFragment lookupAndDeserialize p now
      .ok (answers ++ [answer], fragBuf) : Result _) := by
  induction fed generalizing fragBuf with
  | nil =>
    simp only [List.nil_append, addFragments, ok_bind]
  | cons q fed ih =>
    simp only [List.cons_append, addFragments, ih, bind_assoc, ok_bind]

/-- As long as a piece is missing, every answer is `nullptr`. -/
theorem addFragments_spec (hd : Reassembled ip headerLength n d src pieces)
    (hkey : key = ⟨toUshort d.identification, src, d.destAddress⟩)
    (hempty : fragBuf.bufs key = none) (fed : List (IPv4Datagram × ℕ))
    (hfed : ∀ q ∈ fed.map Prod.fst, q ∈ pieces) (hmissing : ∃ q ∈ pieces, q ∉ fed.map Prod.fst) :
    ∃ fragBuf', addFragments lookupAndDeserialize fragBuf fed =
        .ok (List.replicate fed.length none, fragBuf') ∧
      Collects key headerLength (fed.map Prod.fst) fragBuf' := by
  induction fed using List.reverseRecOn with
  | nil => exact ⟨fragBuf, rfl, .empty hempty⟩
  | append_singleton fed last ih =>
    obtain ⟨p, now⟩ := last
    rw [List.map_append, List.map_singleton] at hfed hmissing ⊢
    have hfed' := fun q hq => hfed q (List.mem_append_left [p] hq)
    have hmissing' : ∃ q ∈ pieces, q ∉ fed.map Prod.fst := by
      obtain ⟨q, hq, hnot⟩ := hmissing
      exact ⟨q, hq, fun hmem => hnot (List.mem_append_left [p] hmem)⟩
    obtain ⟨fragBuf₁, hadd, hcollects⟩ := ih hfed' hmissing'
    obtain ⟨fragBuf₂, hstep, hcollects'⟩ := (hcollects.addFragment lookupAndDeserialize hd hkey
      hfed' (hfed p (List.mem_append_right _ List.mem_cons_self)) now).2 hmissing
    refine ⟨fragBuf₂, ?_, hcollects'⟩
    rw [addFragments_concat, hadd, ok_bind]
    simp only [hstep, ok_bind, List.length_append, List.length_singleton, List.replicate_succ']

/-- The pieces, fed in any order and with duplicates, come out as one datagram with a payload of
`n` bytes when the last of them arrives. -/
def Reassembles (lookupAndDeserialize : Deserializer) (headerLength n : ℤ)
    (pieces : List IPv4Datagram) (fragBuf : IPv4FragBuf) : Prop :=
  ∀ (fed : List (IPv4Datagram × ℕ)) (p : IPv4Datagram) (now : ℕ),
    (∀ q ∈ fed.map Prod.fst, q ∈ pieces) → p ∈ pieces →
    (∃ q ∈ pieces, q ∉ fed.map Prod.fst) →
    ∃ answer fragBuf', addFragments lookupAndDeserialize fragBuf (fed ++ [(p, now)]) =
        .ok (List.replicate fed.length none ++ [answer], fragBuf') ∧
      (answer ≠ none ↔ ∀ q ∈ pieces, q ∈ fed.map Prod.fst ++ [p]) ∧
      ∀ ret, answer = some ret → Whole headerLength n ret

theorem Reassembled.reassembles (hd : Reassembled ip headerLength n d src pieces)
    (hempty : ∀ p ∈ pieces, fragBuf.bufs (keyOf p) = none) :
    Reassembles lookupAndDeserialize headerLength n pieces fragBuf := by
  intro fed p now hfed hp hmissing
  have htravels := hd.travels p hp
  have hkeyOf : keyOf p = ⟨toUshort d.identification, src, d.destAddress⟩ := by
    rw [keyOf, htravels.identification, htravels.srcAddress, htravels.destAddress]
  obtain ⟨fragBuf₁, hadd, hcollects⟩ :=
    addFragments_spec lookupAndDeserialize hd hkeyOf (hempty p hp) fed hfed hmissing
  obtain ⟨hlast, hearlier⟩ :=
    hcollects.addFragment lookupAndDeserialize hd hkeyOf hfed hp now
  rw [addFragments_concat, hadd, ok_bind]
  by_cases hall : ∀ q ∈ pieces, q ∈ fed.map Prod.fst ++ [p]
  · obtain ⟨ret, fragBuf₂, hstep, hwhole⟩ := hlast hall
    refine ⟨some ret, fragBuf₂, ?_, ⟨fun _ => hall, fun _ => Option.some_ne_none ret⟩,
      fun ret' hret => Option.some.inj hret ▸ hwhole⟩
    simp only [hstep, ok_bind]
  · have hnot : ∃ q ∈ pieces, q ∉ fed.map Prod.fst ++ [p] := by
      simpa only [not_forall, exists_prop] using hall
    obtain ⟨fragBuf₂, hstep, -⟩ := hearlier hnot
    refine ⟨none, fragBuf₂, ?_, ⟨fun hne => absurd rfl hne, fun hall' => absurd hall' hall⟩,
      fun _ hret => nomatch hret⟩
    simp only [hstep, ok_bind]

end

variable {ip : IPv4} {headerLength : ℤ} {d : IPv4Datagram}

/-- A datagram is sent in pieces that partition it, through any chain of interfaces, and the
pieces of a whole datagram are put together again. -/
theorem fragments_reassemble (ies : List OutputInterface) (h : Sendable ip headerLength d)
    (hfits : ∀ ie ∈ ies, Fits ip headerLength ie) :
    ∃ stages, ip.sendChain ies [d] = .ok stages ∧ List.Forall₂ (SentThrough d) ies stages ∧
      (d.fragmentOffset = 0 → d.moreFragments = false → rawBytes d = none →
        d.payloadLength < 2 ^ 16 → 1 < (stages.getLastD [d]).length →
        ∀ lookupAndDeserialize fragBuf, (∀ p ∈ stages.getLastD [d], fragBuf.bufs (keyOf p) = none) →
          Reassembles lookupAndDeserialize headerLength d.payloadLength (stages.getLastD [d])
            fragBuf) := by
  obtain ⟨stages, hstages, hall, hcons, src, htravels⟩ :=
    sendChain_spec ies h.consecutive h.travels hfits
  refine ⟨stages, hstages, hall, fun hoffset hflag hraw hshort hseveral lad fragBuf hempty => ?_⟩
  have hend : d.rangeEnd = d.payloadLength := by
    rw [IPv4Datagram.rangeEnd, hoffset, Int.zero_add]
  rw [hflag, hend, hoffset] at hcons
  have hd : Reassembled ip headerLength d.payloadLength d src (stages.getLastD [d]) :=
    ⟨hcons, htravels, hraw, hshort, hseveral⟩
  exact hd.reassembles lad hempty

/-- A whole datagram with a header of 20 bytes. -/
def sampleDatagram (payload : Packet) : IPv4Datagram :=
  { byteLength := 20 + payload.byteLength, timeToLive := 64, encapsulated := some payload }

theorem sendable_sampleDatagram : Sendable {} 20 (sampleDatagram ⟨24, none⟩) where
  header := rfl
  nonneg := by decide
  ttl := by decide
  fragmentable := rfl
  aligned := by decide
  offset := by decide
  proper := by decide
  lengths := by decide
  offsets := by decide
  encapsulates := ⟨⟨24, none⟩, rfl, fun _ => rfl⟩

/-- The second interface cuts the first piece of the first one again. -/
theorem fragments_reassemble_sampleDatagram :
    ∃ stages, IPv4.sendChain {} [⟨36, 0⟩, ⟨28, 0⟩] [sampleDatagram ⟨24, none⟩] = .ok stages ∧
      List.Forall₂ (SentThrough (sampleDatagram ⟨24, none⟩)) [⟨36, 0⟩, ⟨28, 0⟩] stages ∧
      Reassembles (fun _ _ _ _ => none) 20 24 (stages.getLastD [sampleDatagram ⟨24, none⟩]) {} := by
  obtain ⟨stages, hstages, hall, hreassembles⟩ := fragments_reassemble [⟨36, 0⟩, ⟨28, 0⟩]
    sendable_sampleDatagram (by simp [Fits, fragmentMtu])
  have hlength : (IPv4.sendChain {} [⟨36, 0⟩, ⟨28, 0⟩] [sampleDatagram ⟨24, none⟩]).map
      (fun stages => (stages.getLastD [sampleDatagram ⟨24, none⟩]).length) = .ok 3 := by
    decide +kernel
  rw [hstages] at hlength
  have hthree : (stages.getLastD [sampleDatagram ⟨24, none⟩]).length = 3 := Except.ok.inj hlength
  refine ⟨stages, hstages, hall, hreassembles rfl rfl rfl (by decide) ?_ _ _ fun _ _ => rfl⟩
  omega

/-- The length of the datagram that the last piece completes. -/
theorem Reassembles.last {lookupAndDeserialize : Deserializer} {n : ℤ}
    {pieces : List IPv4Datagram} {fragBuf : IPv4FragBuf}
    (h : Reassembles lookupAndDeserialize headerLength n pieces fragBuf)
    (fed : List (IPv4Datagram × ℕ)) (p : IPv4Datagram)
    (hpieces : pieces = fed.map Prod.fst ++ [p]) (hp : p ∉ fed.map Prod.fst) :
    (addFragments lookupAndDeserialize fragBuf (fed ++ [(p, 0)])).map
        (fun result => result.1.getLast?.join.map IPv4Datagram.byteLength) =
      .ok (some (headerLength + n)) := by
  have hmem : p ∈ pieces := hpieces ▸ List.mem_append_right _ List.mem_cons_self
  obtain ⟨answer, fragBuf', hadd, hiff, hwhole⟩ := h fed p 0
    (fun q hq => hpieces ▸ List.mem_append_left _ hq) hmem ⟨p, hmem, hp⟩
  obtain ⟨ret, rfl⟩ := Option.ne_none_iff_exists'.mp (hiff.mpr fun q hq => hpieces ▸ hq)
  rw [hadd, ← (hwhole ret rfl).byteLength]
  show Except.ok ((List.replicate fed.length none ++ [some ret]).getLast?.join.map _) = _
  rw [List.getLast?_concat]
  rfl

/-- The two fragments of a datagram of 65536 bytes behind its header, and those of one that
carries the raw bytes. -/
def longPieces : List IPv4Datagram :=
  [{ sampleDatagram ⟨64976, none⟩ with moreFragments := true, totalPayloadLength := 65536 },
    { sampleDatagram ⟨560, none⟩ with fragmentOffset := 64976, totalPayloadLength := 65536 }]

def rawPieces : List IPv4Datagram :=
  [{ sampleDatagram ⟨8, some (newBuffer 16)⟩ with moreFragments := true, totalPayloadLength := 16 },
    { sampleDatagram ⟨8, some (newBuffer 16)⟩ with fragmentOffset := 8, totalPayloadLength := 16 }]

/-- An expired datagram is not sent, with `isDsr` or beyond the range of `int` none may be, and
the pieces of one that is too long, was not cut or carries raw bytes are not put together. -/
theorem not_fragments_reassemble : (¬ ∃ stages, IPv4.sendChain {} [⟨28, 0⟩]
        [{ sampleDatagram ⟨24, none⟩ with timeToLive := 0 }] = .ok stages ∧
      List.Forall₂ (SentThrough { sampleDatagram ⟨24, none⟩ with timeToLive := 0 }) [⟨28, 0⟩]
        stages) ∧
    (¬ ∃ stages, IPv4.sendChain { isDsr := true } [⟨28, 0⟩] [sampleDatagram ⟨24, none⟩] =
      .ok stages) ∧
    (¬ ∃ stages, IPv4.sendChain {} [⟨28, 0⟩] [sampleDatagram ⟨2 ^ 31 - 1, none⟩] = .ok stages) ∧
    (IPv4.sendChain {} [⟨65000, 0⟩] [sampleDatagram ⟨65536, none⟩] = .ok [longPieces] ∧
      ¬ Reassembles (fun _ _ _ _ => none) 20 65536 longPieces {}) ∧
    ¬ Reassembles (fun _ _ _ _ => none) 20 24 [sampleDatagram ⟨24, none⟩] {} ∧
    (IPv4.sendChain {} [⟨28, 0⟩] [sampleDatagram ⟨16, some (newBuffer 16)⟩] = .ok [rawPieces] ∧
      ¬ Reassembles (fun bytes _ _ _ => some ⟨bytes.length, none⟩) 20 16 rawPieces {}) := by
  refine ⟨?_, ?_, ?_, ⟨by decide +kernel, fun h => ?_⟩, fun h => ?_,
    ⟨by decide +kernel, fun h => ?_⟩⟩
  · rintro ⟨stages, hstages, hall⟩
    have hnone : IPv4.sendChain {} [⟨28, 0⟩]
        [{ sampleDatagram ⟨24, none⟩ with timeToLive := 0 }] = .ok [[]] := by decide +kernel
    obtain rfl := Except.ok.inj (hnone.symm.trans hstages)
    obtain ⟨⟨hpartitions, -⟩, -⟩ := List.forall₂_cons.mp hall
    obtain ⟨p, hp, -⟩ := (hpartitions.covers 0).mpr (by decide)
    exact List.not_mem_nil hp
  · rintro ⟨stages, hstages⟩
    have herror : IPv4.sendChain { isDsr := true } [⟨28, 0⟩] [sampleDatagram ⟨24, none⟩] =
        .error (.cRuntimeError
          "Cannot fragment datagram: MTU=%d too small for header size (%d bytes)") := by
      decide +kernel
    exact nomatch herror.symm.trans hstages
  · rintro ⟨stages, hstages⟩
    have herror : IPv4.sendChain {} [⟨28, 0⟩] [sampleDatagram ⟨2 ^ 31 - 1, none⟩] =
        .error .overflow := by
      decide +kernel
    exact nomatch herror.symm.trans hstages
  · exact absurd (h.last [(longPieces.head (by decide), 0)] (longPieces.getLast (by decide)) rfl
      (by decide)) (by decide +kernel)
  · exact absurd (h.last [] (sampleDatagram ⟨24, none⟩) rfl List.not_mem_nil) (by decide +kernel)
  · exact absurd (h.last [(rawPieces.head (by decide), 0)] (rawPieces.getLast (by decide)) rfl
      (by decide)) (by decide +kernel)

end IPv4FragBuf

end Inet.Ipv4
