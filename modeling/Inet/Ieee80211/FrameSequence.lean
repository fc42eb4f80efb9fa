import Inet.Ieee80211.Frame

/-!
# Frame sequences

A frame sequence is a tree: `SequentialFs`, `OptionalFs`, `RepeatingFs` and `AlternativesFs` over
the primitive sequences. It hands out one step after the other (`prepareStep`), and learns when a
step is over (`completeStep`). The steps are in the context, and every sequence counts its own
steps from the one it has started with.

Predicates, selectors and the frames to transmit belong to the environment, which answers the
queries by their number. `prepareStep` is bounded by fuel, since a `RepeatingFs` whose element has
no steps goes on for as long as its predicate applies. What the model adds to the code are the
numbers of the step objects, what each sequence has returned last (`Progress.prepared`), and a
record of the calls of `completeStep`.
-/

namespace Inet.Ieee80211

inductive FrameType where
  | ST_DATA
  | ST_MANAGEMENT
  | ST_RTS
  | ST_CTS
  | ST_ACK
  | ST_BLOCKACK_REQ
  | ST_BLOCKACK
deriving DecidableEq

inductive FrameClass where
  | dataFrame
  | managementFrame
  | rtsFrame
  | blockAckReq
  | other
deriving DecidableEq

namespace FrameClass

/-- The subclasses of `Ieee80211DataOrMgmtFrame`. -/
def isDataOrMgmtFrame : FrameClass → Bool
  | .dataFrame | .managementFrame => true
  | _ => false

end FrameClass

structure Ieee80211Frame where
  frameClass : FrameClass
  type : FrameType
  receiverAddress : ℕ := 0
  address3 : ℕ := 0

/-- The step classes. -/
inductive StepKind where
  | transmitStep (frameToTransmit : Option Ieee80211Frame)
  | rtsTransmitStep (protectedFrame frameToTransmit : Ieee80211Frame)
  | receiveStep (receivedFrame : Option Ieee80211Frame)

/-- A step object. Objects are numbered in the order in which they are made. -/
structure FrameSequenceStep where
  id : ℕ
  kind : StepKind

/-- One call of `completeStep`: what the sequence had returned from its last `prepareStep`, and the
object at `getStep(firstStep + step)`. -/
structure CompleteCall where
  primitive : Bool
  prepared : Option (Option ℕ)
  found : Option ℕ

structure FrameSequenceContext where
  address : ℕ := 0
  steps : List FrameSequenceStep := []
  /-- How many step objects have been made. -/
  allocated : ℕ := 0
  /-- How many queries the environment has answered. -/
  queries : ℕ := 0
  calls : List CompleteCall := []

/-- The answers to the queries. -/
structure Environment where
  /-- Whether a predicate applies (not 0), or the index that a selector picks. -/
  answer : ℕ → Result ℤ
  /-- `getInProgressFrames()->getFrameToTransmit()`. -/
  frameToTransmit : ℕ → Option Ieee80211Frame
  /-- The receiver that `computeBlockAckReqParameters` yields. -/
  blockAckReqReceiver : ℕ → ℕ

namespace FrameSequenceContext

def getStep (context : FrameSequenceContext) (i : ℤ) : Option FrameSequenceStep :=
  if 0 ≤ i then context.steps[i.toNat]? else none

def getLastStep (context : FrameSequenceContext) : Option FrameSequenceStep :=
  context.steps.getLast?

def getStepBeforeLast (context : FrameSequenceContext) : Option FrameSequenceStep :=
  context.steps.dropLast.getLast?

def addStep (context : FrameSequenceContext) (step : FrameSequenceStep) : FrameSequenceContext :=
  { context with steps := context.steps ++ [step] }

def isSentByUs (context : FrameSequenceContext) (frame : Ieee80211Frame) : Bool :=
  frame.frameClass.isDataOrMgmtFrame && frame.address3 == context.address

def isForUs (context : FrameSequenceContext) (frame : Ieee80211Frame) : Bool :=
  frame.receiverAddress == context.address ||
    (isMulticast frame.receiverAddress && !context.isSentByUs frame)

/-- `new TransmitStep(..)`, `new RtsTransmitStep(..)` or `new ReceiveStep(..)`. -/
def newStep (context : FrameSequenceContext) (kind : StepKind) :
    Option FrameSequenceStep × FrameSequenceContext :=
  (some { id := context.allocated, kind }, { context with allocated := context.allocated + 1 })

def isSequenceApply (env : Environment) (context : FrameSequenceContext) :
    Result (Bool × FrameSequenceContext) := do
  let answer ← env.answer context.queries
  .ok (answer ≠ 0, { context with queries := context.queries + 1 })

def selectSequence (env : Environment) (context : FrameSequenceContext) :
    Result (ℤ × FrameSequenceContext) := do
  let answer ← env.answer context.queries
  .ok (answer, { context with queries := context.queries + 1 })

def getFrameToTransmit (env : Environment) (context : FrameSequenceContext) :
    Option Ieee80211Frame × FrameSequenceContext :=
  (env.frameToTransmit context.queries, { context with queries := context.queries + 1 })

end FrameSequenceContext

/-- The counters of a sequence, and what its last `prepareStep` since the start has returned:
`some none` for `nullptr`. -/
structure Progress where
  firstStep : ℤ := -1
  step : ℤ := -1
  prepared : Option (Option ℕ) := none

namespace Progress

def started (firstStep : ℤ) : Progress := { firstStep, step := 0 }

def returned (progress : Progress) (step : Option FrameSequenceStep) : Progress :=
  { progress with prepared := some (step.map FrameSequenceStep.id) }

/-- `step++`. -/
def stepped (progress : Progress) : Progress := { progress with step := progress.step + 1 }

end Progress

namespace FrameSequenceContext

/-- A call of `completeStep`. -/
def callOf (context : FrameSequenceContext) (primitive : Bool) (progress : Progress) :
    CompleteCall where
  primitive := primitive
  prepared := progress.prepared
  found := (context.getStep (progress.firstStep + progress.step)).map FrameSequenceStep.id

def noteCall (context : FrameSequenceContext) (primitive : Bool) (progress : Progress) :
    FrameSequenceContext :=
  { context with calls := context.calls ++ [context.callOf primitive progress] }

end FrameSequenceContext

inductive Primitive where
  | SelfCtsFs
  | RtsFs
  | CtsFs
  | DataFs
  | ManagementAckFs
  | ManagementFs
  | AckFs
  | RtsCtsFs
  | FragFrameAckFs
  | LastFrameAckFs
  | BlockAckReqBlockAckFs
deriving DecidableEq

/-- The cases of the primitive sequences. A transmission names the frame that is taken for it, a
reception the class of the frame before it and the type that is accepted. -/
inductive Stage where
  | transmitRts
  | transmitFrame (accepts : FrameClass → Bool)
  | transmitAnyFrame
  | transmitBlockAckReq
  | receiveCts
  | receiveResponse (answered : FrameClass → Bool) (accepted : FrameType)

namespace Stage

def isReception : Stage → Bool
  | .receiveCts | .receiveResponse _ _ => true
  | _ => false

end Stage

namespace Primitive

def stages : Primitive → List Stage
  | .SelfCtsFs => []
  | .RtsFs => [.transmitRts]
  | .CtsFs => [.receiveCts]
  | .DataFs => [.transmitFrame (· == .dataFrame)]
  | .ManagementAckFs =>
    [.transmitFrame (· == .managementFrame), .receiveResponse (· == .managementFrame) .ST_ACK]
  | .ManagementFs => [.transmitFrame (· == .managementFrame)]
  | .AckFs => [.receiveResponse FrameClass.isDataOrMgmtFrame .ST_ACK]
  | .RtsCtsFs => [.transmitRts, .receiveCts]
  | .FragFrameAckFs =>
    [.transmitAnyFrame, .receiveResponse FrameClass.isDataOrMgmtFrame .ST_ACK]
  | .LastFrameAckFs =>
    [.transmitAnyFrame, .receiveResponse FrameClass.isDataOrMgmtFrame .ST_ACK]
  | .BlockAckReqBlockAckFs =>
    [.transmitBlockAckReq, .receiveResponse (· == .blockAckReq) .ST_BLOCKACK]

def getHistory (fs : Primitive) (step : ℤ) : String :=
  match fs with
  | .SelfCtsFs => "CTS + self"
  | .RtsFs => "TODO"
  | .CtsFs => "TODO"
  | .DataFs => "DATA"
  | .ManagementAckFs => "MANAGEMENT"
  | .ManagementFs => "MANAGEMENT"
  | .AckFs => "ACK"
  | .RtsCtsFs => "RTS" ++ if step = 2 then " CTS" else ""
  | .FragFrameAckFs => "FRAG-FRAME" ++ if step = 2 then " ACK" else ""
  | .LastFrameAckFs => "LAST-FRAME" ++ if step = 2 then " ACK" else ""
  | .BlockAckReqBlockAckFs => "BLOCKACKREQ" ++ if step = 2 then " ACK" else ""

end Primitive

namespace Stage

/-- `check_and_cast` of a frame. -/
def castFrame (accepts : FrameClass → Bool) (frame : Option Ieee80211Frame) :
    Result Ieee80211Frame :=
  match frame with
  | some frame => if accepts frame.frameClass then .ok frame else .error .badCast
  | none => .error .badCast

/-- The frame of the transmission before a reception. -/
def lastTransmitted (context : FrameSequenceContext) (accepts : FrameClass → Bool) :
    Result Ieee80211Frame :=
  match context.getLastStep.map FrameSequenceStep.kind with
  | some (.transmitStep frame) => castFrame accepts frame
  | some (.rtsTransmitStep _ frame) => castFrame accepts (some frame)
  | _ => .error .badCast

def prepareStep (env : Environment) (context : FrameSequenceContext) :
    Stage → Result (Option FrameSequenceStep × FrameSequenceContext)
  | .transmitRts => do
      let (frame, context) := context.getFrameToTransmit env
      let dataOrMgmtFrame ← castFrame FrameClass.isDataOrMgmtFrame frame
      let rtsFrame : Ieee80211Frame :=
        { frameClass := .rtsFrame
          type := .ST_RTS
          receiverAddress := dataOrMgmtFrame.receiverAddress }
      .ok (context.newStep (.rtsTransmitStep dataOrMgmtFrame rtsFrame))
  | .transmitFrame accepts => do
      let (frame, context) := context.getFrameToTransmit env
      let frame ← castFrame accepts frame
      .ok (context.newStep (.transmitStep frame))
  | .transmitAnyFrame =>
    let (frame, context) := context.getFrameToTransmit env
    .ok (context.newStep (.transmitStep frame))
  | .transmitBlockAckReq =>
    let blockAckReq : Ieee80211Frame :=
      { frameClass := .blockAckReq
        type := .ST_BLOCKACK_REQ
        receiverAddress := env.blockAckReqReceiver context.queries }
    .ok ({ context with queries := context.queries + 1 }.newStep (.transmitStep blockAckReq))
  | .receiveCts =>
    match context.getLastStep.map FrameSequenceStep.kind with
    | some (.rtsTransmitStep _ frame) => do
        let _ ← castFrame (· == .rtsFrame) (some frame)
        .ok (context.newStep (.receiveStep none))
    | _ => .error .badCast
  | .receiveResponse answered _ => do
      let _ ← lastTransmitted context answered
      .ok (context.newStep (.receiveStep none))

/-- Whether the frame of a reception is for us and of the right type. A reception without a frame
is a null pointer in the code. -/
def accepts (context : FrameSequenceContext) (step : Option FrameSequenceStep)
    (accepted : FrameType) : Result Bool :=
  match step.map FrameSequenceStep.kind with
  | some (.receiveStep (some frame)) => .ok (context.isForUs frame && frame.type == accepted)
  | some (.receiveStep none) => .error (.cRuntimeError "null pointer")
  | _ => .error .badCast

def completeStep (context : FrameSequenceContext) (step : Option FrameSequenceStep) :
    Stage → Result Bool
  | .receiveCts => accepts context step .ST_CTS
  | .receiveResponse _ accepted => accepts context step accepted
  | _ => .ok true

end Stage

namespace Primitive

/-- The case of `switch (step)`. -/
def stage (fs : Primitive) (step : ℤ) : Option Stage :=
  if 0 ≤ step then fs.stages[step.toNat]? else none

def prepareStep (env : Environment) (fs : Primitive) (progress : Progress)
    (context : FrameSequenceContext) :
    Result (Option FrameSequenceStep × FrameSequenceContext) :=
  match fs with
  | .SelfCtsFs => .ok (none, context)
  | _ =>
    match fs.stage progress.step with
    | some stage => stage.prepareStep env context
    | none =>
      if progress.step = fs.stages.length then .ok (none, context)
      else .error (.cRuntimeError "Unknown step")

def completeStep (fs : Primitive) (progress : Progress) (context : FrameSequenceContext) :
    Result (Bool × Progress) :=
  match fs with
  | .SelfCtsFs => .ok (false, progress)
  | _ =>
    match fs.stage progress.step with
    | some stage => do
        let complete ← stage.completeStep context
          (context.getStep (progress.firstStep + progress.step))
        .ok (complete, progress.stepped)
    | none => .error (.cRuntimeError "Unknown step")

end Primitive

inductive FrameSequence where
  | primitive (fs : Primitive) (progress : Progress := {})
  | sequentialFs (elements : List FrameSequence) (progress : Progress := {})
      (elementIndex : ℤ := -1)
  | optionalFs (element : FrameSequence) (progress : Progress := {}) (apply : Bool := false)
  | repeatingFs (element : FrameSequence) (progress : Progress := {}) (apply : Bool := false)
      (count : ℤ := 0) (histories : List String := [])
  | alternativesFs (elements : List FrameSequence) (progress : Progress := {})
      (elementIndex : ℤ := -1)

namespace FrameSequence

mutual

def getHistory : FrameSequence → Result String
  | .primitive fs progress => .ok (fs.getHistory progress.step)
  | .sequentialFs elements progress elementIndex => do
      assert (progress.step ≠ -1) "step != -1"
      let histories ← getHistories elements (min (elementIndex + 1) elements.length)
      .ok ("(" ++ " ".intercalate histories ++ ")")
  | .optionalFs element progress apply => do
      assert (progress.step ≠ -1) "step != -1"
      if apply then do
        let history ← element.getHistory
        .ok ("[" ++ history ++ "]")
      else .ok ""
  | .repeatingFs _ progress _ _ histories => do
      assert (progress.step ≠ -1) "step != -1"
      match histories with
      | [] => .error .outOfRange
      | _ => .ok ("\x7b" ++ " ".intercalate histories ++ "\x7d")
  | .alternativesFs elements progress elementIndex => do
      assert (progress.step ≠ -1) "step != -1"
      getElementHistory elements elementIndex

/-- The histories of the first `n` elements. -/
def getHistories : List FrameSequence → ℤ → Result (List String)
  | [], _ => .ok []
  | element :: elements, n =>
    if 0 < n then do
      let history ← element.getHistory
      let histories ← getHistories elements (n - 1)
      .ok (history :: histories)
    else .ok []

/-- `elements[i]->getHistory()`. -/
def getElementHistory : List FrameSequence → ℤ → Result String
  | [], _ => .error .outOfRange
  | element :: elements, i =>
    if i = 0 then element.getHistory else getElementHistory elements (i - 1)

end

mutual

def startSequence (env : Environment) : FrameSequence → FrameSequenceContext → ℤ →
    Result (FrameSequence × FrameSequenceContext)
  | .primitive fs _, context, firstStep => .ok (.primitive fs (.started firstStep), context)
  | .sequentialFs elements _ _, context, firstStep =>
    if 0 < elements.length then do
      let (elements, context) ← startElement env elements 0 context firstStep
      .ok (.sequentialFs elements (.started firstStep) 0, context)
    else .ok (.sequentialFs elements (.started firstStep) 0, context)
  | .optionalFs element _ _, context, firstStep => do
      let (apply, context) ← context.isSequenceApply env
      if apply then do
        let (element, context) ← element.startSequence env context firstStep
        .ok (.optionalFs element (.started firstStep) apply, context)
      else .ok (.optionalFs element (.started firstStep) apply, context)
  | .repeatingFs element _ _ count histories, context, firstStep => do
      let (apply, context) ← context.isSequenceApply env
      if apply then do
        let (element, context) ← element.startSequence env context firstStep
        let history ← element.getHistory
        .ok (.repeatingFs element (.started firstStep) apply 1 (histories ++ [history]), context)
      else .ok (.repeatingFs element (.started firstStep) apply count histories, context)
  | .alternativesFs elements _ _, context, firstStep => do
      let (elementIndex, context) ← context.selectSequence env
      let (elements, context) ← startElement env elements elementIndex context firstStep
      .ok (.alternativesFs elements (.started firstStep) elementIndex, context)

/-- `elements[i]->startSequence(context, firstStep)`. -/
def startElement (env : Environment) : List FrameSequence → ℤ → FrameSequenceContext → ℤ →
    Result (List FrameSequence × FrameSequenceContext)
  | [], _, _, _ => .error .outOfRange
  | element :: elements, i, context, firstStep =>
    if i = 0 then do
      let (element, context) ← element.startSequence env context firstStep
      .ok (element :: elements, context)
    else do
      let (elements, context) ← startElement env elements (i - 1) context firstStep
      .ok (element :: elements, context)

end

/-- The rest of `prepareStep` of a `RepeatingFs`, whose element is over: `repeatSequence`. -/
def repeatSequence (env : Environment) (element : FrameSequence) (progress : Progress)
    (count : ℤ) (histories : List String) (context : FrameSequenceContext) :
    Result (FrameSequence × FrameSequenceContext) := do
  let (apply, context) ← context.isSequenceApply env
  if apply then do
    let (element, context) ← element.startSequence env context (progress.firstStep + progress.step)
    let history ← element.getHistory
    .ok (.repeatingFs element progress apply (count + 1) (histories ++ [history]), context)
  else .ok (.repeatingFs element progress apply count histories, context)

/-- `elements[i]`. -/
def elementAt (elements : List FrameSequence) (i : ℤ) : Result FrameSequence :=
  match (if 0 ≤ i then elements[i.toNat]? else none) with
  | some element => .ok element
  | none => .error .outOfRange

def prepareStep (env : Environment) : ℕ → FrameSequence → FrameSequenceContext →
    Result (Option FrameSequenceStep × FrameSequence × FrameSequenceContext)
  | 0, _, _ => .error .outOfFuel
  | _ + 1, .primitive fs progress, context => do
      let (step, context) ← fs.prepareStep env progress context
      .ok (step, .primitive fs (progress.returned step), context)
  | fuel + 1, .sequentialFs elements progress elementIndex, context =>
    if elementIndex < elements.length then do
      let element ← elementAt elements elementIndex
      let (elementStep, element, context) ← prepareStep env fuel element context
      let elements := elements.set elementIndex.toNat element
      match elementStep with
      | some _ =>
        .ok (elementStep,
          .sequentialFs elements (progress.returned elementStep) elementIndex, context)
      | none =>
        if elementIndex + 1 < elements.length then do
          let (elements, context) ← startElement env elements (elementIndex + 1) context
            (progress.firstStep + progress.step)
          prepareStep env fuel (.sequentialFs elements progress (elementIndex + 1)) context
        else prepareStep env fuel (.sequentialFs elements progress (elementIndex + 1)) context
    else .ok (none, .sequentialFs elements (progress.returned none) elementIndex, context)
  | fuel + 1, .optionalFs element progress apply, context =>
    if apply then do
      let (elementStep, element, context) ← prepareStep env fuel element context
      .ok (elementStep, .optionalFs element (progress.returned elementStep) apply, context)
    else .ok (none, .optionalFs element (progress.returned none) apply, context)
  | fuel + 1, .repeatingFs element progress apply count histories, context =>
    if apply then do
      let (elementStep, element, context) ← prepareStep env fuel element context
      match elementStep with
      | some _ =>
        .ok (elementStep,
          .repeatingFs element (progress.returned elementStep) apply count histories, context)
      | none => do
          let (repeating, context) ← repeatSequence env element progress count histories context
          prepareStep env fuel repeating context
    else .ok (none, .repeatingFs element (progress.returned none) apply count histories, context)
  | fuel + 1, .alternativesFs elements progress elementIndex, context => do
      let element ← elementAt elements elementIndex
      let (elementStep, element, context) ← prepareStep env fuel element context
      .ok (elementStep, .alternativesFs (elements.set elementIndex.toNat element)
          (progress.returned elementStep) elementIndex, context)

mutual

def completeStep : FrameSequence → FrameSequenceContext →
    Result (Bool × FrameSequence × FrameSequenceContext)
  | .primitive fs progress, context => do
      let context := context.noteCall true progress
      let (complete, progress) ← fs.completeStep progress context
      .ok (complete, .primitive fs progress, context)
  | .sequentialFs elements progress elementIndex, context => do
      let context := context.noteCall false progress
      let (complete, elements, context) ← completeElement elements elementIndex context
      .ok (complete, .sequentialFs elements progress.stepped elementIndex, context)
  | .optionalFs element progress apply, context => do
      let context := context.noteCall false progress
      assert apply "apply"
      let (complete, element, context) ← element.completeStep context
      .ok (complete, .optionalFs element progress.stepped apply, context)
  | .repeatingFs element progress apply count histories, context => do
      let context := context.noteCall false progress
      assert apply "apply"
      let (complete, element, context) ← element.completeStep context
      let history ← element.getHistory
      if 0 ≤ count - 1 ∧ count - 1 < histories.length then
        .ok (complete, .repeatingFs element progress.stepped apply count
            (histories.set (count - 1).toNat history), context)
      else .error .outOfRange
  | .alternativesFs elements progress elementIndex, context => do
      let context := context.noteCall false progress
      let (complete, elements, context) ← completeElement elements elementIndex context
      .ok (complete, .alternativesFs elements progress.stepped elementIndex, context)

/-- `elements[i]->completeStep(context)`. -/
def completeElement : List FrameSequence → ℤ → FrameSequenceContext →
    Result (Bool × List FrameSequence × FrameSequenceContext)
  | [], _, _ => .error .outOfRange
  | element :: elements, i, context =>
    if i = 0 then do
      let (complete, element, context) ← element.completeStep context
      .ok (complete, element :: elements, context)
    else do
      let (complete, elements, context) ← completeElement elements (i - 1) context
      .ok (complete, element :: elements, context)

end

mutual

/-- The calls that `completeStep` makes, also if it fails. -/
def completeCalls : FrameSequence → FrameSequenceContext → List CompleteCall
  | .primitive _ progress, context => [context.callOf true progress]
  | .sequentialFs elements progress elementIndex, context =>
    context.callOf false progress ::
      elementCalls elements elementIndex (context.noteCall false progress)
  | .optionalFs element progress apply, context =>
    context.callOf false progress ::
      if apply then element.completeCalls (context.noteCall false progress) else []
  | .repeatingFs element progress apply _ _, context =>
    context.callOf false progress ::
      if apply then element.completeCalls (context.noteCall false progress) else []
  | .alternativesFs elements progress elementIndex, context =>
    context.callOf false progress ::
      elementCalls elements elementIndex (context.noteCall false progress)

def elementCalls : List FrameSequence → ℤ → FrameSequenceContext → List CompleteCall
  | [], _, _ => []
  | element :: elements, i, context =>
    if i = 0 then element.completeCalls context else elementCalls elements (i - 1) context

end

end FrameSequence

end Inet.Ieee80211
