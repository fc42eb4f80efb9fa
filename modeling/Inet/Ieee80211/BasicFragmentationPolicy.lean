import Inet.Common.Basic

/-!
# Sizes of fragments

`BasicFragmentationPolicy` cuts a frame that is longer than the threshold into fragments of the
length of the threshold and a last one with the rest. Its test for frames that are too long also
refuses the frame that fills sixteen fragments exactly.

Packet lengths have 64 bits and are assigned to variables of type `int`, in which the sizes are
computed.
-/

namespace Inet.Ieee80211

/-- What `computeFragmentSizes` reads of a data or management frame: its length without the
encapsulated packet, and that packet's length. -/
structure FragmentableFrame where
  isDataFrame : Bool
  headerLength : ℕ
  payload : Option ℕ

def FragmentableFrame.byteLength (frame : FragmentableFrame) : ℕ :=
  frame.headerLength + frame.payload.getD 0

/-- `payloadLength` and `headerLength`. -/
def FragmentableFrame.lengths (frame : FragmentableFrame) : Result (ℤ × ℤ) :=
  if frame.isDataFrame then
    match frame.payload with
    | some payload => .ok (Inet.toInt payload, Inet.toInt frame.headerLength)
    | none => .error .nullPointer
  else .ok (0, Inet.toInt frame.byteLength)

def MAX_NUM_FRAGMENTS : ℤ := 16

def tooManyFragments : Error :=
  .cRuntimeError "Fragmentation: frame \"%s\" too large, won't fit into %d fragments"

structure BasicFragmentationPolicy where
  fragmentationThreshold : ℤ
  fragmentationThreshold_lt : fragmentationThreshold < 2 ^ 31

namespace BasicFragmentationPolicy

/-- The loop, and the last size. Without room for payload the loop would not end. -/
def fragmentSizes (fragmentationThreshold maxFragmentPayload headerLength payloadLength : ℤ) :
    Result (List ℤ) := do
  let length ← checkInt (headerLength + payloadLength)
  if headerLength + payloadLength > fragmentationThreshold then
    if 0 < maxFragmentPayload then
      let sizes ← fragmentSizes fragmentationThreshold maxFragmentPayload headerLength
        (payloadLength - maxFragmentPayload)
      .ok (fragmentationThreshold :: sizes)
    else .error .outOfFuel
  else .ok [length]
termination_by (headerLength + payloadLength - fragmentationThreshold).toNat

def computeFragmentSizes (policy : BasicFragmentationPolicy) (frame : FragmentableFrame) :
    Result (List ℤ) := do
  if policy.fragmentationThreshold < frame.byteLength then
    let (payloadLength, headerLength) ← frame.lengths
    let maxFragmentPayload ← checkInt (policy.fragmentationThreshold - headerLength)
    let maxPayload ← checkInt (maxFragmentPayload * MAX_NUM_FRAGMENTS)
    if payloadLength ≥ maxPayload then throw tooManyFragments
    else fragmentSizes policy.fragmentationThreshold maxFragmentPayload headerLength payloadLength
  else .ok []

/-- The sizes of fragments of a payload with `payloadLength` bytes. -/
structure Splits (fragmentationThreshold headerLength payloadLength : ℤ) (sizes : List ℤ) :
    Prop where
  full : ∀ size ∈ sizes.dropLast, size = fragmentationThreshold
  last : ∃ size ∈ sizes.getLast?, headerLength < size ∧ size ≤ fragmentationThreshold
  sum : (sizes.map (· - headerLength)).sum = payloadLength

section

variable {threshold room header payload : ℤ}

/-- All fragments but the last one take up the whole room, and the last one is not empty. -/
theorem fragmentSizes_spec (hroom : 0 < room) (hthreshold : threshold = header + room)
    (hheader : 0 ≤ header) (hpayload : 0 < payload) (hfits : header + payload < 2 ^ 31) :
    ∃ sizes, fragmentSizes threshold room header payload = .ok sizes ∧
      Splits threshold header payload sizes ∧ (sizes.length - 1) * room < payload := by
  induction hrounds : (header + payload - threshold).toNat using Nat.strong_induction_on
    generalizing payload with
  | _ rounds ih =>
    by_cases hlong : header + payload > threshold
    · obtain ⟨sizes, hsizes, hsplits, hlength⟩ :=
        @ih _ (by omega) (payload - room) (by omega) (by omega) rfl
      have hne : sizes ≠ [] := by
        rintro rfl
        obtain ⟨size, hsize, -⟩ := hsplits.last
        cases hsize
      refine ⟨threshold :: sizes, ?_, ⟨?_, ?_, ?_⟩, ?_⟩
      · rw [fragmentSizes, checkInt_of ⟨by omega, hfits⟩, ok_bind, if_pos hlong,
          if_pos hroom, hsizes, ok_bind]
      · intro size hsize
        rw [List.dropLast_cons_of_ne_nil hne] at hsize
        rcases List.mem_cons.mp hsize with rfl | hrest
        · rfl
        · exact hsplits.full size hrest
      · rw [List.getLast?_cons_of_ne_nil hne]
        exact hsplits.last
      · rw [List.map_cons, List.sum_cons, hsplits.sum]
        omega
      · rw [List.length_cons]
        push_cast
        linarith
    · refine ⟨[header + payload], ?_, ⟨?_, ?_, ?_⟩, ?_⟩
      · rw [fragmentSizes, checkInt_of ⟨by omega, hfits⟩, ok_bind, if_neg hlong]
      · simp
      · exact ⟨header + payload, rfl, by omega, by omega⟩
      · simp
      · simpa using hpayload

/-- The loop does not refuse a frame. -/
theorem fragmentSizes_ne_tooManyFragments :
    fragmentSizes threshold room header payload ≠ .error tooManyFragments := by
  induction hrounds : (header + payload - threshold).toNat using Nat.strong_induction_on
    generalizing payload with
  | _ rounds ih =>
    rw [fragmentSizes, checkInt]
    split
    · rw [ok_bind]
      split_ifs with hlong hroom
      · intro herror
        cases hsizes : fragmentSizes threshold room header (payload - room) with
        | error e =>
          rw [hsizes, error_bind] at herror
          exact ih _ (by omega) rfl (hsizes.trans herror)
        | ok sizes =>
          rw [hsizes, ok_bind] at herror
          cases herror
      · intro herror
        cases herror
      · intro herror
        cases herror
    · intro herror
      cases herror

/-- Sixteen fragments are enough for less than sixteen times the room. -/
theorem length_le_of_lt {sizes : List ℤ} (hroom : 0 < room)
    (hlength : (sizes.length - 1) * room < payload) (hpayload : payload < 16 * room) :
    sizes.length ≤ 16 := by
  by_contra hlong
  have hle : (16 : ℤ) ≤ sizes.length - 1 := by omega
  have := Int.mul_le_mul_of_nonneg_right hle hroom.le
  omega

end

/-- What a frame with `headerLength` and `payloadLength` bytes should be cut into. -/
def CutsAsSpecified (policy : BasicFragmentationPolicy) (headerLength payloadLength : ℕ) : Prop :=
  let room := policy.fragmentationThreshold - headerLength
  let sizes? := policy.computeFragmentSizes ⟨true, headerLength, some payloadLength⟩
  if payloadLength > 16 * room then sizes? = .error tooManyFragments
  else ∃ sizes, sizes? = .ok sizes ∧
    Splits policy.fragmentationThreshold headerLength payloadLength sizes ∧ sizes.length ≤ 16

variable {policy : BasicFragmentationPolicy} {headerLength payloadLength : ℕ}

section

variable (hroom : headerLength < policy.fragmentationThreshold)

include hroom

/-- The tests of `computeFragmentSizes` before the loop, for a data frame that is too long. -/
theorem computeFragmentSizes_eq
    (hlong : policy.fragmentationThreshold < headerLength + payloadLength) :
    policy.computeFragmentSizes ⟨true, headerLength, some payloadLength⟩ =
      checkInt ((policy.fragmentationThreshold - headerLength) * MAX_NUM_FRAGMENTS) >>=
        fun maxPayload =>
          if Inet.toInt payloadLength ≥ maxPayload then .error tooManyFragments
          else fragmentSizes policy.fragmentationThreshold
            (policy.fragmentationThreshold - headerLength) headerLength
            (Inet.toInt payloadLength) := by
  have hthreshold := policy.fragmentationThreshold_lt
  have hbyteLength : policy.fragmentationThreshold <
      (FragmentableFrame.mk true headerLength (some payloadLength)).byteLength := by
    simpa [FragmentableFrame.byteLength] using hlong
  have hheader : Inet.toInt headerLength = headerLength := toInt_of (by omega)
  have hroom' : checkInt (policy.fragmentationThreshold - headerLength) =
      .ok (policy.fragmentationThreshold - headerLength) := checkInt_of (by omega)
  have hlengths : (FragmentableFrame.mk true headerLength (some payloadLength)).lengths =
      .ok (Inet.toInt payloadLength, headerLength) := by
    rw [FragmentableFrame.lengths, if_pos rfl, hheader]
  rw [computeFragmentSizes, if_pos hbyteLength, hlengths, ok_bind]
  change checkInt (policy.fragmentationThreshold - headerLength) >>= _ = _
  rw [hroom', ok_bind]
  rfl

theorem checkInt_product (hproduct : 16 * (policy.fragmentationThreshold - headerLength) < 2 ^ 31) :
    checkInt ((policy.fragmentationThreshold - headerLength) * MAX_NUM_FRAGMENTS) =
      .ok ((policy.fragmentationThreshold - headerLength) * 16) := by
  rw [MAX_NUM_FRAGMENTS]
  exact checkInt_of (by omega)

theorem splits_of_lt (hlong : policy.fragmentationThreshold < headerLength + payloadLength)
    (hproduct : 16 * (policy.fragmentationThreshold - headerLength) < 2 ^ 31)
    (hpayload : payloadLength < 16 * (policy.fragmentationThreshold - headerLength))
    (hfits : headerLength + payloadLength < 2 ^ 31) :
    ∃ sizes, policy.computeFragmentSizes ⟨true, headerLength, some payloadLength⟩ = .ok sizes ∧
      Splits policy.fragmentationThreshold headerLength payloadLength sizes ∧
      sizes.length ≤ 16 := by
  have hspec : ∃ sizes, fragmentSizes policy.fragmentationThreshold
      (policy.fragmentationThreshold - headerLength) headerLength payloadLength = .ok sizes ∧
      Splits policy.fragmentationThreshold headerLength payloadLength sizes ∧
      (sizes.length - 1) * (policy.fragmentationThreshold - headerLength) < payloadLength :=
    fragmentSizes_spec (by omega) (by omega) (by omega) (by omega) (by omega)
  obtain ⟨sizes, hsizes, hsplits, hlength⟩ := hspec
  refine ⟨sizes, ?_, hsplits, length_le_of_lt (by omega) hlength hpayload⟩
  have hproduct' : checkInt ((policy.fragmentationThreshold - headerLength) * MAX_NUM_FRAGMENTS) =
        .ok ((policy.fragmentationThreshold - headerLength) * 16) := checkInt_product hroom hproduct
  have htoInt : Inet.toInt payloadLength = payloadLength := toInt_of (by omega)
  rw [computeFragmentSizes_eq hroom hlong, hproduct', ok_bind, htoInt, if_neg (by omega), hsizes]

end

/-- A frame is cut as it should be unless its payload fills sixteen fragments exactly or is as long
that a computation in `int` fails. -/
theorem cutsAsSpecified_iff (hroom : headerLength < policy.fragmentationThreshold)
    (hlong : policy.fragmentationThreshold < headerLength + payloadLength) :
    CutsAsSpecified policy headerLength payloadLength ↔
      (payloadLength : ℤ) ≠ 16 * (policy.fragmentationThreshold - headerLength) ∧
        16 * (policy.fragmentationThreshold - headerLength) < 2 ^ 31 ∧
        if payloadLength < 16 * (policy.fragmentationThreshold - headerLength) then
          headerLength + payloadLength < 2 ^ 31
        else 16 * (policy.fragmentationThreshold - headerLength) ≤ Inet.toInt payloadLength := by
  have hresult := computeFragmentSizes_eq hroom hlong
  unfold CutsAsSpecified
  dsimp only
  by_cases hproduct : 16 * (policy.fragmentationThreshold - headerLength) < 2 ^ 31
  swap
  · have hoverflow : policy.computeFragmentSizes ⟨true, headerLength, some payloadLength⟩ =
        .error .overflow := by
      rw [hresult, MAX_NUM_FRAGMENTS, checkInt, if_neg (by omega), Result.error_bind]
    refine iff_of_false ?_ (fun h => hproduct h.2.1)
    rw [hoverflow]
    split_ifs
    · intro h
      cases h
    · rintro ⟨sizes, h, -⟩
      cases h
  rw [checkInt_product hroom hproduct, Result.ok_bind] at hresult
  rcases lt_trichotomy (payloadLength : ℤ)
    (16 * (policy.fragmentationThreshold - headerLength)) with hlt | heq | hgt
  · rw [if_neg (by omega), if_pos hlt]
    refine ⟨?_, fun h => splits_of_lt hroom hlong hproduct hlt h.2.2⟩
    rintro ⟨sizes, hsizes, -⟩
    refine ⟨hlt.ne, hproduct, ?_⟩
    by_contra hfits
    -- The length of the whole frame overflows in the condition of the loop.
    have htoInt : Inet.toInt payloadLength = payloadLength := toInt_of (by omega)
    rw [hresult, htoInt, if_neg (by omega), fragmentSizes, checkInt, if_neg (by omega),
      Result.error_bind] at hsizes
    cases hsizes
  · have htoInt : Inet.toInt payloadLength = payloadLength := toInt_of (by omega)
    refine iff_of_false ?_ (fun h => h.1 heq)
    rw [if_neg (by omega), hresult, htoInt, if_pos (by omega)]
    rintro ⟨sizes, h, -⟩
    cases h
  · rw [if_pos hgt, if_neg (by omega), hresult]
    refine ⟨fun h => ⟨hgt.ne', hproduct, ?_⟩, fun h => if_pos (by omega)⟩
    by_contra hle
    rw [if_neg (by omega)] at h
    exact fragmentSizes_ne_tooManyFragments h

/-- A payload of 640 bytes in fragments of 100 bytes with 36 bytes of header. -/
theorem cutsAsSpecified_ten : CutsAsSpecified ⟨100, by decide⟩ 36 640 :=
  (@cutsAsSpecified_iff ⟨100, by decide⟩ 36 640 (by decide) (by decide)).mpr (by decide)

/-- A payload that fills sixteen fragments is refused. -/
theorem not_cutsAsSpecified_sixteen : ¬ CutsAsSpecified ⟨100, by decide⟩ 36 1024 := by
  rintro ⟨sizes, hsizes, -⟩
  cases hsizes

end BasicFragmentationPolicy

end Inet.Ieee80211
