import Inet.Ieee80211.MsduAggregationPolicy

/-!
# Aggregation and deaggregation of MSDUs

`MsduAggregation` puts frames into one, and `MsduDeaggregation` takes them out again. The source
and the destination of an MSDU travel in its subframe, the receiver and the transmitter in the
frame that carries the A-MSDU. `restores_iff` says when the frames are as before.
-/

namespace Inet.Ieee80211

structure Ieee80211MsduSubframe where
  name : String := ""
  sa : ℕ := 0
  da : ℕ := 0
  etherType : ℤ := 0
  packet : Msdu

structure Ieee80211AMsdu where
  byteLength : ℤ
  subframes : List Ieee80211MsduSubframe

namespace MsduAggregation

/-- The destination and the source of a frame. -/
def subframeAddress (frame : DataFrameWith Msdu) : ℕ × ℕ :=
  match frame.toDS, frame.fromDS with
  | false, false => (frame.receiverAddress, frame.transmitterAddress)
  | false, true => (frame.receiverAddress, frame.address3)
  | true, false => (frame.address3, frame.transmitterAddress)
  | true, true => (frame.address3, frame.address4)

def setSubframeAddress (subframe : Ieee80211MsduSubframe) (frame : DataFrameWith Msdu) :
    Ieee80211MsduSubframe :=
  let (da, sa) := subframeAddress frame
  { subframe with da, sa }

/-- The subframe for a frame. -/
def subframeOf (dataFrame : DataFrameWith Msdu) : Ieee80211MsduSubframe :=
  { setSubframeAddress
      { etherType := dataFrame.etherType.getD (-1)
        packet := dataFrame.packet } dataFrame with
    name := dataFrame.name }

/-- The loop of `aggregateFrames`. -/
def addSubframes :
    List (DataFrameWith Msdu) → List Ieee80211MsduSubframe → ℤ → Result Ieee80211AMsdu
  | [], subframes, aMsduLength => .ok { byteLength := aMsduLength, subframes }
  | dataFrame :: rest, subframes, aMsduLength => do
      assert (dataFrame.type == .ST_DATA_WITH_QOS) "dataFrame->getType() == ST_DATA_WITH_QOS"
      let snapHeader : ℕ := if dataFrame.etherType.isSome then SNAP_HEADER_BYTES else 0
      addSubframes rest (subframes ++ [subframeOf dataFrame])
        (toInt (aMsduLength + (dataFrame.subframeLength + snapHeader : ℕ)))

def aggregateFrames (frames : List (DataFrameWith Msdu)) :
    Result (DataFrameWith Ieee80211AMsdu) := do
  match frames with
  | [] => .error .outOfRange
  | firstFrame :: _ => do
      let aMsdu ← addSubframes frames [] 0
      .ok { name := "A-MSDU"
            type := .ST_DATA_WITH_QOS
            toDS := firstFrame.toDS
            fromDS := firstFrame.fromDS
            aMsduPresent := true
            transmitterAddress := firstFrame.transmitterAddress
            receiverAddress := firstFrame.receiverAddress
            tid := firstFrame.tid
            sequenceNumber := 0
            ackPolicy := .NORMAL_ACK
            packet := aMsdu }

end MsduAggregation

namespace MsduDeaggregation

def setExplodedFrameAddress (frame : DataFrameWith Msdu) (subframe : Ieee80211MsduSubframe)
    (aMsduFrame : DataFrameWith Ieee80211AMsdu) : DataFrameWith Msdu :=
  match aMsduFrame.fromDS, aMsduFrame.toDS with
  | false, false =>
    { frame with
      transmitterAddress := aMsduFrame.transmitterAddress
      receiverAddress := aMsduFrame.receiverAddress }
  | true, false =>
    -- the transmitter stays what `deaggregateFrame` has set
    { frame with
      transmitterAddress := frame.transmitterAddress
      receiverAddress := subframe.da
      address3 := subframe.sa }
  | false, true =>
    { frame with
      transmitterAddress := subframe.sa
      receiverAddress := aMsduFrame.receiverAddress
      address3 := subframe.da }
  | true, true =>
    { frame with
      receiverAddress := aMsduFrame.receiverAddress
      transmitterAddress := aMsduFrame.transmitterAddress
      address3 := subframe.da
      address4 := subframe.sa }

/-- The frame for a subframe. -/
def explodedFrame (frame : DataFrameWith Ieee80211AMsdu) (msduSubframe : Ieee80211MsduSubframe) :
    DataFrameWith Msdu :=
  let dataFrame : DataFrameWith Msdu :=
    { name := msduSubframe.name
      type := .ST_DATA_WITH_QOS
      transmitterAddress := msduSubframe.sa
      toDS := frame.toDS
      fromDS := frame.fromDS
      tid := frame.tid
      etherType := if msduSubframe.etherType ≠ -1 then some msduSubframe.etherType else none
      sequenceNumber := 0
      ackPolicy := .NORMAL_ACK
      packet := msduSubframe.packet }
  setExplodedFrameAddress dataFrame msduSubframe frame

def deaggregateFrame (frame : DataFrameWith Ieee80211AMsdu) : List (DataFrameWith Msdu) :=
  frame.packet.subframes.map (explodedFrame frame)

end MsduDeaggregation

open MsduAggregation MsduDeaggregation

/-- The frame is as before: the same MSDU between the same addresses. -/
structure Restores (frame dataFrame : DataFrameWith Msdu) : Prop where
  packet : dataFrame.packet = frame.packet
  tid : dataFrame.tid = frame.tid
  toDS : dataFrame.toDS = frame.toDS
  fromDS : dataFrame.fromDS = frame.fromDS
  etherType : dataFrame.etherType = frame.etherType
  receiverAddress : dataFrame.receiverAddress = frame.receiverAddress
  transmitterAddress : dataFrame.transmitterAddress = frame.transmitterAddress
  address3 : frame.toDS = true ∨ frame.fromDS = true → dataFrame.address3 = frame.address3
  address4 : frame.toDS = true → frame.fromDS = true → dataFrame.address4 = frame.address4

/-- Its transmitter survives on the way from an access point, and its type of a SNAP header is not
the mark of a frame without one. -/
def Restorable (frame : DataFrameWith Msdu) : Prop :=
  (frame.fromDS = true → frame.toDS = false → frame.transmitterAddress = frame.address3) ∧
    frame.etherType ≠ some (-1)

variable {frame : DataFrameWith Msdu} {frames : List (DataFrameWith Msdu)}
  {carrier : DataFrameWith Ieee80211AMsdu}

theorem addSubframes_eq_ok (qos : ∀ frame ∈ frames, frame.type = .ST_DATA_WITH_QOS)
    (subframes : List Ieee80211MsduSubframe) (length : ℤ) :
    ∃ total, addSubframes frames subframes length =
      .ok { byteLength := total, subframes := subframes ++ frames.map subframeOf } := by
  induction frames generalizing subframes length with
  | nil => exact ⟨length, by simp [addSubframes]⟩
  | cons frame frames ih =>
    have hframe : (frame.type == .ST_DATA_WITH_QOS) = true :=
      beq_iff_eq.mpr (qos frame List.mem_cons_self)
    obtain ⟨total, htotal⟩ := ih (fun f hf => qos f (List.mem_cons_of_mem _ hf))
      (subframes ++ [subframeOf frame])
      (toInt (length +
        (frame.subframeLength + if frame.etherType.isSome then SNAP_HEADER_BYTES else 0 : ℕ)))
    refine ⟨total, ?_⟩
    rw [addSubframes, assert_of hframe, ok_bind, htotal, List.append_assoc]
    rfl

/-- A frame that goes through the subframe of a carrier with its own header. -/
theorem restores_explodedFrame_iff (toDS : carrier.toDS = frame.toDS)
    (fromDS : carrier.fromDS = frame.fromDS) (tid : carrier.tid = frame.tid)
    (receiver : carrier.receiverAddress = frame.receiverAddress)
    (transmitter : carrier.transmitterAddress = frame.transmitterAddress) :
    Restores frame (explodedFrame carrier (subframeOf frame)) ↔ Restorable frame := by
  have hetherType : (if frame.etherType.getD (-1) ≠ -1 then some (frame.etherType.getD (-1))
      else none) = frame.etherType ↔ frame.etherType ≠ some (-1) := by
    cases frame.etherType with
    | none => simp
    | some etherType => by_cases h : etherType = -1 <;> simp [h]
  constructor
  · intro h
    refine ⟨fun hfrom hto => ?_, hetherType.mp ?_⟩
    · have := h.transmitterAddress
      simpa [explodedFrame, setExplodedFrameAddress, subframeOf, setSubframeAddress,
        subframeAddress, toDS, fromDS, hfrom, hto, eq_comm] using this
    · have := h.etherType
      cases hto : frame.toDS <;> cases hfrom : frame.fromDS <;>
        simpa [explodedFrame, setExplodedFrameAddress, subframeOf, setSubframeAddress,
          subframeAddress, toDS, fromDS, hfrom, hto] using this
  · rintro ⟨htransmitter, hether⟩
    have hether := hetherType.mpr hether
    cases hto : frame.toDS <;> cases hfrom : frame.fromDS <;>
      constructor <;>
      simp_all [explodedFrame, setExplodedFrameAddress, subframeOf, setSubframeAddress,
        subframeAddress]

/-- Frames that are selected for an A-MSDU go through one frame and come out as before if and only
if each of them is restorable. -/
theorem restores_iff {policy : BasicMsduAggregationPolicy}
    {queue : List (Option (DataFrameWith Msdu))}
    (selected : policy.computeAggregateFrames queue = .ok (some frames))
    (qos : ∀ frame ∈ frames, frame.type = .ST_DATA_WITH_QOS)
    (shared : ∀ frame ∈ frames, ∀ other ∈ frames,
      frame.toDS = other.toDS ∧ frame.fromDS = other.fromDS) :
    (∃ carrier, aggregateFrames frames = .ok carrier ∧
      List.Forall₂ Restores frames (deaggregateFrame carrier)) ↔
      ∀ frame ∈ frames, Restorable frame := by
  obtain ⟨first, others, rest, rfl, -, -, htakes, -⟩ :=
    BasicMsduAggregationPolicy.computeAggregateFrames_eq_some.mp selected
  obtain ⟨total, htotal⟩ := addSubframes_eq_ok qos [] 0
  have hcarrier : ∃ carrier, aggregateFrames (first :: others) = .ok carrier ∧
      carrier.packet.subframes = (first :: others).map subframeOf ∧ carrier.toDS = first.toDS ∧
      carrier.fromDS = first.fromDS ∧ carrier.tid = first.tid ∧
      carrier.receiverAddress = first.receiverAddress ∧
      carrier.transmitterAddress = first.transmitterAddress := by
    simp only [aggregateFrames, htotal, Result.ok_bind, List.nil_append]
    exact ⟨_, rfl, rfl, rfl, rfl, rfl, rfl, rfl⟩
  obtain ⟨carrier, haggregate, hsubframes, toDS, fromDS, tid, receiver, transmitter⟩ := hcarrier
  have hrestores : ∀ frame ∈ first :: others,
      Restores frame (explodedFrame carrier (subframeOf frame)) ↔ Restorable frame := by
    intro frame hframe
    obtain ⟨hto, hfrom⟩ := shared first List.mem_cons_self frame hframe
    obtain ⟨_, heligible⟩ := htakes.isEligible frame hframe
    obtain ⟨-, -, htid, hra, hta⟩ := BasicMsduAggregationPolicy.isEligible_iff.mp heligible
    exact restores_explodedFrame_iff (toDS.trans hto) (fromDS.trans hfrom) (tid.trans htid.symm)
      (receiver.trans hra.symm) (transmitter.trans hta.symm)
  have hforall : List.Forall₂ Restores (first :: others) (deaggregateFrame carrier) ↔
      ∀ frame ∈ first :: others, Restorable frame := by
    rw [deaggregateFrame, hsubframes, List.map_map, List.forall₂_map_right_iff, List.forall₂_same]
    exact forall₂_congr hrestores
  constructor
  · rintro ⟨carrier', haggregate', h⟩
    obtain rfl := Except.ok.inj (haggregate.symm.trans haggregate')
    exact hforall.mp h
  · exact fun h => ⟨carrier, haggregate, hforall.mpr h⟩

/-- Two frames to an access point. -/
def toAccessPoint : List (DataFrameWith Msdu) :=
  [{ sequenceNumber := 0, receiverAddress := 1, transmitterAddress := 2, toDS := true,
     address3 := 3, packet := { byteLength := 100, data := [1] } },
    { sequenceNumber := 0, receiverAddress := 1, transmitterAddress := 2, toDS := true,
      address3 := 4, etherType := some 2048, packet := { byteLength := 100, data := [2] } }]

theorem restores_toAccessPoint : ∃ carrier, aggregateFrames toAccessPoint = .ok carrier ∧
      List.Forall₂ Restores toAccessPoint (deaggregateFrame carrier) := by
  have selected : BasicMsduAggregationPolicy.computeAggregateFrames {}
      (toAccessPoint.map some) = .ok (some toAccessPoint) := rfl
  refine (restores_iff selected (by decide) (by decide)).mpr fun frame hframe => ?_
  simp only [toAccessPoint, List.mem_cons, List.not_mem_nil, or_false] at hframe
  obtain rfl | rfl := hframe <;> exact ⟨by decide, by decide⟩

/-- Two frames from an access point (2) to a station (1), sent by another station (3). -/
def fromAccessPoint : List (DataFrameWith Msdu) :=
  [{ sequenceNumber := 0, receiverAddress := 1, transmitterAddress := 2, fromDS := true,
     address3 := 3, packet := { byteLength := 100, data := [1] } },
    { sequenceNumber := 0, receiverAddress := 1, transmitterAddress := 2, fromDS := true,
      address3 := 3, packet := { byteLength := 100, data := [2] } }]

/-- They come out with the address of that station as their transmitter. -/
theorem not_restores_fromAccessPoint :
    BasicMsduAggregationPolicy.computeAggregateFrames {} (fromAccessPoint.map some) =
        .ok (some fromAccessPoint) ∧
      ¬∃ carrier, aggregateFrames fromAccessPoint = .ok carrier ∧
        List.Forall₂ Restores fromAccessPoint (deaggregateFrame carrier) := by
  refine ⟨rfl, ?_⟩
  rintro ⟨carrier, haggregate, h⟩
  obtain rfl := Except.ok.inj haggregate
  obtain _ | ⟨hrestores, -⟩ := h
  have := hrestores.transmitterAddress
  revert this
  decide

end Inet.Ieee80211
