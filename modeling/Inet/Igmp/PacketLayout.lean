import Inet.Igmp.IGMPSerializer

/-!
# What is read back of an IGMP message

`packetBytes` is the layout of a message. The serializer writes it, completed by the checksum, and
the parser reads it back if the message is `Representable`: a later query has a response time and
no source addresses, and the numbers fit into their fields. Whatever the parser returns is so.
-/

namespace Inet.IGMPSerializer

open Buffer IGMPMessage
open Inet.Ipv4 (IPv4Address)
open TCPIPchecksum (checksum)
open List

def groupRecordBytes (gr : GroupRecord) : Bytes :=
  [UInt8.ofInt gr.recordType, 0] ++ (bytes16 (BitVec.ofNat 16 gr.sourceList.length) ++
    (bytes32 gr.groupAddress ++ gr.sourceList.flatMap bytes32))

def messageBytes (type code : UInt8) (chksum : Uint16) (rest : Bytes) : Bytes :=
  type :: code :: (bytes16 chksum ++ rest)

def v3QueryBytes (query : V3Query) : Bytes :=
  bytes32 query.groupAddress ++ ([robustnessByte query] ++ ([query.queryIntervalCode] ++
    (bytes16 (BitVec.ofNat 16 query.sourceList.length) ++ query.sourceList.flatMap bytes32)))

def v3ReportBytes (groupRecord : List GroupRecord) : Bytes :=
  bytes16 0 ++ (bytes16 (BitVec.ofNat 16 groupRecord.length) ++
    groupRecord.flatMap groupRecordBytes)

/-- The bytes of a message with a given checksum. -/
def packetBytes (chksum : Uint16) : IGMPMessage → Bytes
  | IGMPv1Query groupAddress =>
    messageBytes IGMP_MEMBERSHIP_QUERY 0 chksum (bytes32 groupAddress)
  | IGMPv2Query groupAddress maxRespTime =>
    messageBytes IGMP_MEMBERSHIP_QUERY maxRespTime chksum (bytes32 groupAddress)
  | IGMPv3Query query =>
    messageBytes IGMP_MEMBERSHIP_QUERY query.maxRespCode chksum (v3QueryBytes query)
  | IGMPv1Report groupAddress =>
    messageBytes IGMPV1_MEMBERSHIP_REPORT 0 chksum (bytes32 groupAddress)
  | IGMPv2Report groupAddress =>
    messageBytes IGMPV2_MEMBERSHIP_REPORT 0 chksum (bytes32 groupAddress)
  | IGMPv2Leave groupAddress =>
    messageBytes IGMPV2_LEAVE_GROUP 0 chksum (bytes32 groupAddress)
  | IGMPv3Report groupRecord =>
    messageBytes IGMPV3_MEMBERSHIP_REPORT 0 chksum (v3ReportBytes groupRecord)

@[simp] theorem length_messageBytes (type code : UInt8) (chksum : Uint16) (rest : Bytes) :
    (messageBytes type code chksum rest).length = 4 + rest.length := by
  simp [messageBytes]
  omega

/-- The checksum is stored into its place. -/
theorem storeShort_packetBytes (pkt : IGMPMessage) (chksum : Uint16) :
    storeShort (packetBytes 0 pkt) 2 chksum = packetBytes chksum pkt := by
  cases pkt <;> rfl

theorem four_le_length_packetBytes (chksum : Uint16) (pkt : IGMPMessage) :
    4 ≤ (packetBytes chksum pkt).length := by
  cases pkt <;> simp [packetBytes]

section

variable {size : ℕ} {b : Buffer}

theorem writeHeader_written (type : UInt8) (h : Written size b []) (hle : 4 ≤ size) :
    Written size (writeHeader type b) (messageBytes type 0 0 []) :=
  ((h.writeByte (by simp; omega) type).writeByte (by simp; omega) 0).writeUint16 (by simpa) 0

/-- A message of 8 bytes. -/
theorem writeGroupMessage_written (type : UInt8) (h : Written size b []) (hle : 8 ≤ size)
    (groupAddress : IPv4Address) :
    Written size ((writeHeader type b).writeUint32 groupAddress)
      (messageBytes type 0 0 (bytes32 groupAddress)) :=
  (writeHeader_written type h (by omega)).writeUint32 (by simpa) groupAddress

theorem writeAddresses_written {bytes : Bytes} (h : Written size b bytes)
    (addresses : List IPv4Address)
    (hle : bytes.length + (addresses.flatMap bytes32).length ≤ size) :
    Written size (addresses.foldl Buffer.writeUint32 b) (bytes ++ addresses.flatMap bytes32) :=
  Written.foldl (fun address _ _ hwritten hroom => hwritten.writeUint32 hroom address) addresses h
    hle

theorem writeGroupRecord_written (gr : GroupRecord) {bytes : Bytes} (h : Written size b bytes)
    (hle : bytes.length + (groupRecordBytes gr).length ≤ size) :
    Written size (writeGroupRecord b gr) (bytes ++ groupRecordBytes gr) := by
  simp only [groupRecordBytes, length_append, length_bytes16, length_bytes32,
    length_cons, length_nil] at hle
  have h₁ := h.writeByte (by omega) (UInt8.ofInt gr.recordType)
  have h₂ := h₁.writeByte (by simp; omega) 0
  have h₃ := h₂.writeUint16 (by simp; omega) (BitVec.ofNat 16 gr.sourceList.length)
  have h₄ := h₃.writeUint32 (by simp; omega) gr.groupAddress
  have h₅ := writeAddresses_written h₄ gr.sourceList (by simp [-length_flatMap]; omega)
  simpa only [groupRecordBytes, writeGroupRecord, append_assoc, cons_append, nil_append] using h₅

/-- The assertion of the serializer. -/
def RobustnessFits : IGMPMessage → Prop
  | IGMPv3Query query => query.robustnessVariable ≤ 7
  | _ => True

theorem writeMessage_written {pkt : IGMPMessage} (hpkt : RobustnessFits pkt)
    (h : Written size b []) (hle : (packetBytes 0 pkt).length ≤ size) :
    ∃ b', writeMessage b pkt = .ok b' ∧ Written size b' (packetBytes 0 pkt) := by
  cases pkt with
  | IGMPv1Query groupAddress => exact ⟨_, rfl, writeGroupMessage_written _ h hle groupAddress⟩
  | IGMPv2Query groupAddress maxRespTime =>
    exact ⟨_, rfl, (writeGroupMessage_written _ h hle groupAddress).writeByteTo 1 (by simp) _⟩
  | IGMPv3Query query =>
    simp only [packetBytes, v3QueryBytes, length_messageBytes, length_append,
      length_bytes16, length_bytes32, length_cons, length_nil] at hle
    have h₁ := (writeGroupMessage_written IGMP_MEMBERSHIP_QUERY h (by omega)
      query.groupAddress).writeByteTo 1 (by simp) query.maxRespCode
    have h₂ := h₁.writeByte (by simp; omega) (robustnessByte query)
    have h₃ := h₂.writeByte (by simp; omega) query.queryIntervalCode
    have h₄ := h₃.writeUint16 (by simp; omega) (BitVec.ofNat 16 query.sourceList.length)
    have h₅ := writeAddresses_written h₄ query.sourceList (by simp [-length_flatMap]; omega)
    rw [append_assoc, append_assoc, append_assoc] at h₅
    refine ⟨_, ?_, h₅⟩
    have hrobust : query.robustnessVariable ≤ 7 := hpkt
    rw [writeMessage, decide_eq_true hrobust]
    rfl
  | IGMPv1Report groupAddress => exact ⟨_, rfl, writeGroupMessage_written _ h hle groupAddress⟩
  | IGMPv2Report groupAddress => exact ⟨_, rfl, writeGroupMessage_written _ h hle groupAddress⟩
  | IGMPv2Leave groupAddress => exact ⟨_, rfl, writeGroupMessage_written _ h hle groupAddress⟩
  | IGMPv3Report groupRecord =>
    simp only [packetBytes, v3ReportBytes, length_messageBytes, length_append,
      length_bytes16] at hle
    have h₁ := (writeHeader_written IGMPV3_MEMBERSHIP_REPORT h (by omega)).writeUint16
      (by simp; omega) 0
    have h₂ := h₁.writeUint16 (by simp; omega) (BitVec.ofNat 16 groupRecord.length)
    have h₃ := Written.foldl (fun gr _ _ => writeGroupRecord_written gr) groupRecord h₂
      (by simp [-length_flatMap]; omega)
    rw [append_assoc, append_assoc] at h₃
    exact ⟨_, rfl, h₃⟩

/-- The serializer writes the layout, completed by the checksum. -/
theorem serialize_written {pkt : IGMPMessage} (hpkt : RobustnessFits pkt) {buf : Bytes}
    (hle : (packetBytes 0 pkt).length ≤ buf.length) :
    ∃ b', serialize pkt ⟨buf, 0, false⟩ = .ok b' ∧
      Written buf.length b' (packetBytes (checksum (packetBytes 0 pkt)) pkt) := by
  obtain ⟨b', hwrite, hwritten⟩ := writeMessage_written hpkt (written_nil buf) hle
  have hfour := four_le_length_packetBytes 0 pkt
  have hlast := hwritten.writeUint16To 2 (by omega)
    (checksum (packetBytes 0 pkt))
  rw [storeShort_packetBytes] at hlast
  refine ⟨_, ?_, hlast⟩
  rw [serialize, hwrite, ok_bind, drop_zero, Nat.sub_zero, hwritten.take]

/-- The numbers of a record fit into their fields. -/
def GroupRecord.Fits (gr : GroupRecord) : Prop :=
  0 ≤ gr.recordType ∧ gr.recordType < 2 ^ 8 ∧ gr.sourceList.length < 2 ^ 16

/-- A later query has a response time and no sources, and the numbers fit into their fields. -/
def Representable : IGMPMessage → Prop
  | IGMPv2Query _ maxRespTime => maxRespTime ≠ 0
  | IGMPv3Query query =>
    query.maxRespCode ≠ 0 ∧ query.robustnessVariable ≤ 7 ∧ query.sourceList = []
  | IGMPv3Report groupRecord =>
    groupRecord.length < 2 ^ 16 ∧ ∀ gr ∈ groupRecord, gr.Fits
  | _ => True

theorem Representable.robustnessFits {pkt : IGMPMessage} (h : Representable pkt) :
    RobustnessFits pkt := by
  cases pkt with
  | IGMPv3Query query => exact h.2.1
  | _ => trivial

variable {rest : Bytes} {code type : UInt8} {chksum : Uint16} {query : V3Query}

theorem toNat_count {n : ℕ} (h : n < 2 ^ 16) : (BitVec.ofNat 16 n).toNat = n := by
  rw [BitVec.toNat_ofNat, Nat.mod_eq_of_lt h]

theorem recordType_read {t : ℤ} (h₀ : 0 ≤ t) (hlt : t < 2 ^ 8) :
    ((UInt8.ofInt t).toNat : ℤ) = t := by
  rw [UInt8.ofInt, UInt8.toNat_ofNat', Int.emod_eq_of_lt h₀ hlt]
  omega

theorem readGroupRecord_written {gr : GroupRecord} (hgr : gr.Fits)
    (h : b.Rest (groupRecordBytes gr ++ rest)) :
    readGroupRecord b = (gr, b.advance (groupRecordBytes gr).length) := by
  obtain ⟨h₀, hlt, hcount⟩ := hgr
  simp only [groupRecordBytes, append_assoc, cons_append, nil_append] at h
  have haddresses := h.afterByte.afterByte.afterUint16.afterUint32
  have hend := Rest.accessNBytes [] haddresses.advance
  rw [readGroupRecord, h.readByte]
  dsimp only
  rw [h.afterByte.readByte]
  dsimp only
  rw [h.afterByte.afterByte.readUint16]
  dsimp only
  rw [h.afterByte.afterByte.afterUint16.readUint32]
  dsimp only
  rw [toNat_count hcount, recordType_read h₀ hlt, Rest.readElements (fun _ _ _ _ haddress => haddress.readUint32) haddresses]
  dsimp only
  rw [show 4 * (0 : UInt8).toNat = 0 from rfl]
  refine Prod.ext rfl (hend.trans ?_)
  simp only [advance_advance, groupRecordBytes, length_append, length_bytes16,
    length_bytes32, length_cons, length_nil]
  congr 1
  omega

/-- The flag and the variable are taken apart again. -/
theorem robustnessByte_spec (h : query.robustnessVariable ≤ 7) :
    (robustnessByte query &&& 0x8 != 0) = query.suppressRouterProc ∧
      robustnessByte query &&& 7 = query.robustnessVariable := by
  have hall : ∀ (s : Bool) (n : Fin 8),
      (((if s then 0x8 else 0) ||| UInt8.ofNat n.val) &&& 0x8 != 0) = s ∧
        ((if s then 0x8 else 0) ||| UInt8.ofNat n.val) &&& 7 = UInt8.ofNat n.val := by decide
  have hlt : query.robustnessVariable.toNat < 8 := Nat.lt_succ_of_le h
  have hquery := hall query.suppressRouterProc ⟨query.robustnessVariable.toNat, hlt⟩
  rwa [UInt8.ofNat_toNat] at hquery

theorem readGroupMessage_written {groupAddress : IPv4Address} (message : IPv4Address → IGMPMessage)
    (h : b.Rest (bytes32 groupAddress)) :
    readGroupMessage message b =
      (⟨.igmpMessage (message groupAddress), 8, false⟩, b.advance 4) := by
  have h' : b.Rest (bytes32 groupAddress ++ []) := by rwa [append_nil]
  rw [readGroupMessage, h'.readUint32]

theorem length_v3QueryBytes (h : query.sourceList = []) : (v3QueryBytes query).length = 8 := by
  rw [v3QueryBytes, h]
  rfl

theorem readV3Query_written (hquery : Representable (IGMPv3Query query))
    (h : b.Rest (v3QueryBytes query)) :
    readV3Query 0 query.maxRespCode b =
      .ok (⟨.igmpMessage (IGMPv3Query query), b.pos + 8, false⟩, b.advance 8) := by
  obtain ⟨-, hrobust, hsources⟩ := hquery
  obtain ⟨hflag, hvariable⟩ := robustnessByte_spec hrobust
  rw [v3QueryBytes, hsources] at h
  have hcode : b.Rest (bytes32 query.groupAddress ++ (robustnessByte query ::
      query.queryIntervalCode :: (bytes16 0 ++ []))) := h
  rw [readV3Query, hcode.readUint32]
  dsimp only
  rw [hcode.afterUint32.readByte]
  dsimp only
  rw [hcode.afterUint32.afterByte.readByte]
  dsimp only
  rw [hcode.afterUint32.afterByte.afterByte.readUint16, hflag, hvariable]
  dsimp only
  rw [if_neg (fun h0 => absurd h0.1 (by decide)), ← hsources, advance_advance, advance_advance,
    advance_advance]
  rfl

theorem readV3Report_written {groupRecord : List GroupRecord}
    (hreport : Representable (IGMPv3Report groupRecord)) (h : b.Rest (v3ReportBytes groupRecord)) :
    readV3Report 0 b =
      (⟨.igmpMessage (IGMPv3Report groupRecord), b.pos + (v3ReportBytes groupRecord).length, false⟩,
        b.advance (v3ReportBytes groupRecord).length) := by
  obtain ⟨hcount, hrecords⟩ := hreport
  rw [← append_nil (v3ReportBytes groupRecord), v3ReportBytes, append_assoc, append_assoc] at h
  have hall := Rest.readElements
    (fun gr hgr _ _ => readGroupRecord_written (hrecords gr hgr)) h.afterUint16.afterUint16
  rw [readV3Report, h.readUint16]
  dsimp only
  rw [h.afterUint16.readUint16]
  dsimp only
  rw [toNat_count hcount, hall]
  have hlength : (v3ReportBytes groupRecord).length =
      2 + 2 + (groupRecord.flatMap groupRecordBytes).length := by
    rw [v3ReportBytes, length_append, length_append, length_bytes16, length_bytes16, Nat.add_assoc]
  rw [hlength, advance_advance, advance_advance, Nat.add_assoc 2]
  rfl

/-- The buffer behind the checksum. -/
theorem rest_messageBytes : Rest ⟨messageBytes type code chksum rest, 4, false⟩ rest :=
  ⟨by simp, rfl, rfl⟩

theorem deserialize_messageBytes {d : Deserialized}
    (hread : readMessage 0 type code ⟨messageBytes type code chksum rest, 4, false⟩ = .ok (d, b))
    (hok : b.errorFound = false)
    (hlength : d.byteLength = (messageBytes type code chksum rest).length)
    (hchecksum : checksum (messageBytes type code chksum rest) = 0) :
    deserialize ⟨messageBytes type code chksum rest, 0, false⟩ = .ok d := by
  have hstart : deserialize ⟨messageBytes type code chksum rest, 0, false⟩ = (do
      let r ← readMessage 0 type code ⟨messageBytes type code chksum rest, 4, false⟩
      if r.2.errorFound ||
          checksum ((messageBytes type code chksum rest).take r.1.byteLength) != 0 then
        .ok { r.1 with bitError := true }
      else .ok r.1) := rfl
  rw [hstart, hread, ok_bind]
  dsimp only
  rw [hok, hlength, take_length, hchecksum]
  rfl

/-- A message of 8 bytes. -/
theorem deserialize_groupMessage {groupAddress : IPv4Address}
    (message : IPv4Address → IGMPMessage) (hread : readMessage 0 type code
      ⟨messageBytes type code chksum (bytes32 groupAddress), 4, false⟩ =
      .ok (readGroupMessage message
        ⟨messageBytes type code chksum (bytes32 groupAddress), 4, false⟩)) (hchecksum :
      checksum (messageBytes type code chksum (bytes32 groupAddress)) = 0) :
    deserialize ⟨messageBytes type code chksum (bytes32 groupAddress), 0, false⟩ =
      .ok ⟨.igmpMessage (message groupAddress), 8, false⟩ := by
  rw [readGroupMessage_written message rest_messageBytes] at hread
  exact deserialize_messageBytes hread rfl rfl hchecksum

theorem deserialize_packetBytes {pkt : IGMPMessage} (h : Representable pkt)
    (hchecksum : checksum (packetBytes chksum pkt) = 0) :
    deserialize ⟨packetBytes chksum pkt, 0, false⟩ =
      .ok ⟨.igmpMessage pkt, (packetBytes chksum pkt).length, false⟩ := by
  cases pkt with
  | IGMPv1Query groupAddress =>
    exact deserialize_groupMessage IGMPv1Query rfl hchecksum
  | IGMPv2Query groupAddress maxRespTime =>
    exact deserialize_groupMessage (IGMPv2Query · maxRespTime) (if_neg h) hchecksum
  | IGMPv3Query query =>
    have hread : readMessage 0 IGMP_MEMBERSHIP_QUERY query.maxRespCode
        ⟨messageBytes IGMP_MEMBERSHIP_QUERY query.maxRespCode chksum (v3QueryBytes query), 4,
          false⟩ = readV3Query 0 query.maxRespCode _ :=
      (if_neg h.1).trans (if_neg (by simp [bufsize, length_v3QueryBytes h.2.2]))
    rw [readV3Query_written h rest_messageBytes] at hread
    have hlength : (packetBytes chksum (IGMPv3Query query)).length = 4 + 8 := by
      rw [packetBytes, length_messageBytes, length_v3QueryBytes h.2.2]
    rw [hlength]
    exact deserialize_messageBytes hread rfl hlength.symm hchecksum
  | IGMPv1Report groupAddress =>
    refine deserialize_groupMessage IGMPv1Report ?_ hchecksum
    rw [readMessage, if_neg (by decide), if_pos rfl]
  | IGMPv2Report groupAddress =>
    refine deserialize_groupMessage IGMPv2Report ?_ hchecksum
    rw [readMessage, if_neg (by decide), if_neg (by decide), if_pos rfl]
  | IGMPv2Leave groupAddress =>
    refine deserialize_groupMessage IGMPv2Leave ?_ hchecksum
    rw [readMessage, if_neg (by decide), if_neg (by decide), if_neg (by decide), if_pos rfl]
  | IGMPv3Report groupRecord =>
    have hread : readMessage 0 IGMPV3_MEMBERSHIP_REPORT 0
        ⟨messageBytes IGMPV3_MEMBERSHIP_REPORT 0 chksum (v3ReportBytes groupRecord), 4, false⟩ =
        .ok (readV3Report 0 _) := rfl
    rw [readV3Report_written h rest_messageBytes] at hread
    have hlength : (packetBytes chksum (IGMPv3Report groupRecord)).length =
        4 + (v3ReportBytes groupRecord).length := length_messageBytes _ _ _ _
    rw [hlength]
    exact deserialize_messageBytes hread rfl hlength.symm hchecksum

variable {d : Deserialized} {pkt : IGMPMessage} {startPos : ℕ}

/-- A list that is counted by a field of 16 bits. -/
theorem length_readElements_lt {α : Type} {read : Buffer → α × Buffer} (count : Uint16)
    (b : Buffer) : (b.readElements read count.toNat).1.length < 2 ^ 16 :=
  Nat.lt_of_le_of_lt (length_readElements_le _ _) count.isLt

theorem readGroupRecord_fits (b : Buffer) : (readGroupRecord b).1.Fits := by
  unfold readGroupRecord GroupRecord.Fits
  dsimp only
  refine ⟨Int.natCast_nonneg _, ?_, length_readElements_lt _ _⟩
  exact Int.ofNat_lt.mpr (UInt8.toNat_lt _)

theorem readV3Report_representable (h : (readV3Report startPos b).1.packet = .igmpMessage pkt) :
    Representable pkt := by
  unfold readV3Report at h
  dsimp only at h
  cases h
  refine ⟨length_readElements_lt _ _, fun gr hgr => ?_⟩
  obtain ⟨b', rfl⟩ := exists_read_of_mem_readElements hgr
  exact readGroupRecord_fits b'

theorem readV3Query_representable {code : UInt8} (hcode : code ≠ 0) {b' : Buffer}
    (hread : readV3Query startPos code b = .ok (d, b')) (h : d.packet = .igmpMessage pkt) :
    Representable pkt := by
  unfold readV3Query at hread
  dsimp only at hread
  split at hread
  · cases hread
  · cases hread
    cases h
    exact ⟨hcode, UInt8.and_le_right, rfl⟩

/-- One case for each type. -/
theorem readMessage_representable {type code : UInt8} {b' : Buffer}
    (hread : readMessage startPos type code b = .ok (d, b')) (h : d.packet = .igmpMessage pkt) :
    Representable pkt := by
  unfold readMessage at hread
  split at hread
  · split at hread
    · cases hread
      cases h
      trivial
    · next hcode =>
        split at hread
        · cases hread
          cases h
          exact hcode
        · exact readV3Query_representable hcode hread h
  split at hread
  · cases hread
    cases h
    trivial
  split at hread
  · cases hread
    cases h
    trivial
  split at hread
  · cases hread
    cases h
    trivial
  split at hread
  · have hd : (readV3Report startPos b).1 = d := congrArg Prod.fst (Except.ok.inj hread)
    rw [← hd] at h
    exact readV3Report_representable h
  · unfold readRawPacket at hread
    dsimp only at hread
    split at hread
    · cases hread
    · cases hread
      cases h

/-- Every message that is parsed is representable. -/
theorem deserialize_representable (hread : deserialize b = .ok d)
    (h : d.packet = .igmpMessage pkt) : Representable pkt := by
  unfold deserialize at hread
  dsimp only at hread
  obtain ⟨⟨d', b'⟩, hmessage, hrest⟩ := bind_eq_ok.mp hread
  have hpacket : d.packet = d'.packet := by
    dsimp only at hrest
    split at hrest
    · cases hrest
      rfl
    · cases hrest
      rfl
  exact readMessage_representable hmessage (hpacket.symm.trans h)

end

/-- In every buffer with room for it the message is written without an error, and what was written
is read back with all fields, the number of bytes as its length and no bit error. -/
def RoundTrips (pkt : IGMPMessage) : Prop :=
  ∀ buf : Bytes, (packetBytes 0 pkt).length ≤ buf.length →
    ∃ b, serialize pkt ⟨buf, 0, false⟩ = .ok b ∧ b.errorFound = false ∧
      deserialize ⟨b.buf.take b.pos, 0, false⟩ = .ok ⟨.igmpMessage pkt, b.pos, false⟩

/-- What is stored into the checksum field makes the checksum of the packet zero. -/
theorem checksum_packetBytes (pkt : IGMPMessage) : checksum
      (packetBytes (checksum (packetBytes 0 pkt)) pkt) = 0 := by
  have hroom := four_le_length_packetBytes 0 pkt
  have hzero := ((TCPIPchecksum.checksum_complements (packetBytes 0 pkt).length).verifies
    (k := 1) (by omega)).1
  rwa [Nat.mul_one, storeShort_packetBytes, storeShort_packetBytes] at hzero

theorem RoundTrips.representable {pkt : IGMPMessage} (h : RoundTrips pkt) : Representable pkt := by
  obtain ⟨b, -, -, hread⟩ := h (List.replicate (packetBytes 0 pkt).length 0)
    (by rw [length_replicate])
  exact deserialize_representable hread rfl

/-- A message survives exactly when it is representable. -/
theorem roundTrips_iff (pkt : IGMPMessage) : RoundTrips pkt ↔ Representable pkt := by
  refine ⟨RoundTrips.representable, fun h buf hroom => ?_⟩
  obtain ⟨b, hserialize, hwritten⟩ := serialize_written h.robustnessFits hroom
  refine ⟨b, hserialize, hwritten.errorFound, ?_⟩
  rw [hwritten.take, hwritten.pos]
  exact deserialize_packetBytes h (checksum_packetBytes pkt)

/-- A group-and-source-specific query. -/
def sourceQuery : IGMPMessage :=
  IGMPv3Query ⟨0xE1000001, 100, false, 2, 125, [0x0A000001]⟩

theorem not_roundTrips_sourceQuery : ¬ RoundTrips sourceQuery :=
  fun h => absurd h.representable.2.2 (List.cons_ne_nil _ _)

end Inet.IGMPSerializer
