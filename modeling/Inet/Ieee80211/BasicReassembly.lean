import Inet.Ieee80211.SequenceNumberAssignment
import Inet.Library.KeyedList

/-!
# Fragmentation and reassembly

`Fragmentation` cuts a frame into fragments. All but the last are dummies without data: the frame
itself is encapsulated in the last one. `BasicReassembly` collects the fragments of a frame, which
is known by its transmitter address, its TID and its sequence number.

The map of the incomplete frames is a list sorted by these keys. Lengths of packets are only set,
never read, and `delete` has no effect here.
-/

namespace Inet.Ieee80211

/-- An `Ieee80211DataOrMgmtFrame` with what it encapsulates. -/
structure MacFrame (π : Type) extends Ieee80211DataOrMgmtFrame where
  moreFragments : Bool := false
  byteLength : ℕ := 0
  encapsulated : Option π := none

/-- A packet is a frame, or one of the upper layers. -/
inductive Packet where
  | upper (byteLength : ℕ)
  | frame (frame : MacFrame Packet)

abbrev Frame := MacFrame Packet

/-- `check_and_cast_nullable<Ieee80211DataOrMgmtFrame *>`. -/
def Packet.castFrame : Option Packet → Result (Option Frame)
  | none => .ok none
  | some (.frame carried) => .ok (some carried)
  | some (.upper _) => .error .badCast

/-- `Fragmentation::fragmentFrame`. -/
def fragmentFrame (frame : Frame) (fragmentSizes : List ℕ) : List Frame :=
  let fragmentHeader : Frame := { frame with encapsulated := none }
  fragmentSizes.mapIdx fun i size =>
    let lastFragment := decide (i = fragmentSizes.length - 1)
    { fragmentHeader with
      fragmentNumber := i
      moreFragments := !lastFragment
      encapsulated := if lastFragment then some (.frame frame) else none
      byteLength := size }

namespace BasicReassembly

/-- `macAddress`, `tid` and `seqNum`, in this order. -/
abbrev Key := ℕ ×ₗ ℤ ×ₗ ℕ

def key (macAddress : ℕ) (tid : ℤ) (seqNum : ℕ) : Key := toLex (macAddress, toLex (tid, seqNum))

/-- An entry of the map. -/
structure Value where
  key : Key
  frame : Option Frame := none
  /-- Each bit corresponds to a fragment number. -/
  receivedFragments : BitVec 16 := 0
  /-- Bits for all fragments; 0 means unfilled. -/
  allFragments : BitVec 16 := 0

end BasicReassembly

open BasicReassembly in
structure BasicReassembly where
  fragmentsMap : List Value := []
  sorted : KeyedList.Sorted Value.key fragmentsMap := by exact List.Pairwise.nil

namespace BasicReassembly

variable (r : BasicReassembly)

/-- The keys of the entries. -/
def keys : List Key := r.fragmentsMap.map Value.key

def erase (k : Key) : BasicReassembly :=
  ⟨KeyedList.erase Value.key r.fragmentsMap k, r.sorted.erase k⟩

/-- The value of a key, which is a new one if the map does not have the key. -/
def getOrDefault (k : Key) : Value :=
  (KeyedList.lookup Value.key r.fragmentsMap k).getD { key := k }

/-- The value takes the place of the one with its key. -/
def set (value : Value) : BasicReassembly :=
  ⟨KeyedList.insert Value.key value (KeyedList.erase Value.key r.fragmentsMap value.key),
    (r.sorted.erase value.key).insert fun _ hy => (KeyedList.mem_erase.mp hy).2⟩

/-- The key of the frame that a fragment belongs to. -/
def keyOf (frame : Frame) : Key :=
  let tid : ℤ :=
    match frame.kind with
    | .data true tid => tid
    | _ => -1
  key frame.transmitterAddress tid frame.sequenceNumber

/-- The frame of an entry, which a fragment may bring along. -/
def Value.carry (value : Value) (frame : Frame) : Result (Option Frame) :=
  match value.frame with
  | none => Packet.castFrame frame.encapsulated
  | some carried => .ok (some carried)

def addFragment (frame : Frame) : Result (Option Frame × BasicReassembly) :=
  -- not fragmented
  if frame.moreFragments = false ∧ frame.fragmentNumber = 0 then .ok (some frame, r)
  else if frame.kind = .management then .ok (some frame, r) -- temporary fix for mgmt frames
  else do
    let k := keyOf frame
    let fragNum := frame.fragmentNumber
    assert (decide (fragNum < 16)) "fragNum >= 0 && fragNum < MAX_NUM_FRAGMENTS"
    let value := r.getOrDefault k
    let fragmentBit : BitVec 16 := 1#16 <<< fragNum
    let receivedFragments := value.receivedFragments ||| fragmentBit
    let allFragments :=
      if frame.moreFragments then value.allFragments
      else ((fragmentBit.setWidth 32 <<< 1) - 1#32).setWidth 16
    let carried ← value.carry frame
    if allFragments ≠ 0 ∧ allFragments = receivedFragments then -- all fragments arrived
      match carried with
      | none => .error .nullPointer
      | some result =>
        .ok (some { result with transmitterAddress := frame.transmitterAddress }, r.erase k)
    else
      .ok (none, r.set { key := k, frame := carried, receivedFragments, allFragments })

/-- An iterator of the map still points to an entry, or behind the last one. -/
def IsValid (it : Option Key) : Prop := ∀ k ∈ it, k ∈ r.keys
deriving Decidable

theorem length_erase_lt {k : Key} (h : k ∈ r.keys) :
    (r.erase k).fragmentsMap.length < r.fragmentsMap.length := by
  obtain ⟨x, hx, rfl⟩ := List.mem_map.mp h
  exact KeyedList.length_erase_lt hx

/-- The loops of `purge`: every entry from `it` to `itEnd` is erased. -/
def eraseRange (r : BasicReassembly) (it itEnd : Option Key) : Result BasicReassembly :=
  if ¬ r.IsValid itEnd then .error .danglingPointer -- the entry has been erased
  else if it = itEnd then .ok r
  else
    match it with
    | none => .error .invalidIterator
    | some k =>
      if _h : k ∈ r.keys then
        eraseRange (r.erase k) (KeyedList.upperBound Value.key r.fragmentsMap k) itEnd
      else .error .danglingPointer
termination_by r.fragmentsMap.length
decreasing_by exact r.length_erase_lt _h

def purge (address : ℕ) (tid : ℤ) (startSeqNumber endSeqNumber : ℕ) : Result BasicReassembly := do
  let itStart := KeyedList.lowerBound Value.key r.fragmentsMap (key address tid startSeqNumber)
  let itEnd := KeyedList.upperBound Value.key r.fragmentsMap (key address tid endSeqNumber)
  if endSeqNumber < startSeqNumber then
    let r ← eraseRange r itStart none
    eraseRange r (r.fragmentsMap.head?.map Value.key) itEnd
  else eraseRange r itStart itEnd

end BasicReassembly

end Inet.Ieee80211
