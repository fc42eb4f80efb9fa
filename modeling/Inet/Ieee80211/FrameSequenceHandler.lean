import Inet.Ieee80211.FrameSequence
import Inet.Library.Run

/-!
# The frame sequence handler

The handler starts a frame sequence and takes it from step to step: it adds every step that
`prepareStep` returns to the context, and calls `completeStep` when a frame has been transmitted or
received. `aligned_throughout` says that the calls of `completeStep` always find the step that was
prepared, in the order of the steps, whatever the tree, the predicates and the selectors are. That
is also so in an operation that fails, and none fails because a sequence that is called has ended.
-/

namespace Inet.Ieee80211

open FrameSequenceContext (addStep callOf noteCall)
open List hiding getElem?_eq_some_iff

/-- The context stays when the sequence is over, for the record of its calls. -/
structure FrameSequenceHandler where
  frameSequence : Option FrameSequence := none
  context : FrameSequenceContext := {}

inductive HandlerOp where
  | startFrameSequence (frameSequence : FrameSequence) (address : ℕ)
  | transmissionComplete
  | processResponse (frame : Ieee80211Frame)
  | handleStartRxTimeout

namespace StepKind

def isReceiveStep : StepKind → Bool
  | .receiveStep _ => true
  | _ => false

end StepKind

namespace FrameSequenceContext

/-- `getLastStep()->setFrameToReceive(frame)`. -/
def setFrameToReceive (context : FrameSequenceContext) (frame : Ieee80211Frame) :
    FrameSequenceContext :=
  { context with
    steps := context.steps.dropLast ++ context.steps.getLast?.toList.map fun step =>
      { step with kind := .receiveStep (some frame) } }

end FrameSequenceContext

namespace FrameSequenceHandler

/-- `check_and_cast<ITransmitStep *>`. -/
def castTransmitStep (step : Option FrameSequenceStep) : Result Unit :=
  match step with
  | some step => if step.kind.isReceiveStep then .error .badCast else .ok ()
  | none => .error .badCast

def abortFrameSequence (handler : FrameSequenceHandler) : Result FrameSequenceHandler := do
  let step := handler.context.getLastStep
  if step.any fun step => step.kind.isReceiveStep then do
    castTransmitStep handler.context.getStepBeforeLast
    .ok { handler with frameSequence := none }
  else do
    castTransmitStep step
    .ok { handler with frameSequence := none }

def startFrameSequenceStep (env : Environment) (fuel : ℕ) (handler : FrameSequenceHandler) :
    Result FrameSequenceHandler :=
  match handler.frameSequence with
  | none => .error (.assertion "isSequenceRunning()")
  | some frameSequence => do
      let (nextStep, frameSequence, context) ← frameSequence.prepareStep env fuel handler.context
      match nextStep with
      | none => .ok { frameSequence := none, context }
      | some step => .ok { frameSequence := some frameSequence, context := context.addStep step }

def finishFrameSequenceStep (handler : FrameSequenceHandler) : Result FrameSequenceHandler :=
  match handler.frameSequence with
  | none => .error (.assertion "isSequenceRunning()")
  | some frameSequence => do
      let lastStep := handler.context.getLastStep
      let (stepResult, frameSequence, context) ← frameSequence.completeStep handler.context
      let handler := { frameSequence := some frameSequence, context }
      if !stepResult then handler.abortFrameSequence
      else if lastStep.any fun step => step.kind.isReceiveStep then do
        castTransmitStep handler.context.getStepBeforeLast
        .ok handler
      else .ok handler

/-- `finishFrameSequenceStep`, and the next step if the sequence is still running. -/
def nextFrameSequenceStep (env : Environment) (fuel : ℕ) (handler : FrameSequenceHandler) :
    Result FrameSequenceHandler := do
  let handler ← handler.finishFrameSequenceStep
  if handler.frameSequence.isSome then handler.startFrameSequenceStep env fuel
  else .ok handler

def step (env : Environment) (fuel : ℕ) (handler : FrameSequenceHandler) :
    HandlerOp → Result FrameSequenceHandler
  | .startFrameSequence frameSequence address =>
    if handler.frameSequence.isSome then
      .error (.cRuntimeError "Channel access granted while a frame sequence is running")
    else do
      let context : FrameSequenceContext := { address, queries := handler.context.queries }
      let (frameSequence, context) ← frameSequence.startSequence env context 0
      startFrameSequenceStep env fuel { frameSequence := some frameSequence, context }
  | .transmissionComplete =>
    if handler.frameSequence.isSome then handler.nextFrameSequenceStep env fuel
    else .ok handler
  | .processResponse frame =>
    match handler.frameSequence, handler.context.getLastStep.map FrameSequenceStep.kind with
    | some _, some (.receiveStep _) =>
      { handler with
        context := handler.context.setFrameToReceive frame }.nextFrameSequenceStep env fuel
    | some _, some _ =>
      .error (.cRuntimeError "Received frame while current step is transmit")
    | _, _ => .error (.cRuntimeError "null pointer")
  | .handleStartRxTimeout =>
    match handler.frameSequence, handler.context.getLastStep.map FrameSequenceStep.kind with
    | some _, some (.receiveStep _) => handler.abortFrameSequence
    | some _, some _ => .error (.cRuntimeError "Received timeout while in transmit step")
    | _, _ => .error (.cRuntimeError "null pointer")

end FrameSequenceHandler

namespace FrameSequence

variable {complete : Bool} {fs' element element' : FrameSequence} {elements : List FrameSequence}
  {step : Option FrameSequenceStep} {progress : Progress} {n : ℕ} {i : ℤ}

/-- Frame sequences are made of primitives; the induction hypothesis covers every element. -/
theorem induction {motive : FrameSequence → Prop}
    (primitive : ∀ fs progress, motive (.primitive fs progress))
    (sequentialFs : ∀ elements progress elementIndex, (∀ element ∈ elements, motive element) →
      motive (.sequentialFs elements progress elementIndex))
    (optionalFs : ∀ element progress apply, motive element →
      motive (.optionalFs element progress apply))
    (repeatingFs : ∀ element progress apply count histories, motive element →
      motive (.repeatingFs element progress apply count histories))
    (alternativesFs : ∀ elements progress elementIndex, (∀ element ∈ elements, motive element) →
      motive (.alternativesFs elements progress elementIndex)) :
    ∀ fs, motive fs := by
  intro fs
  refine FrameSequence.rec (motive_1 := motive)
    (motive_2 := fun elements => ∀ element ∈ elements, motive element)
    primitive sequentialFs optionalFs repeatingFs alternativesFs ?_ ?_ fs
  · exact fun element hmem => absurd hmem not_mem_nil
  · intro element elements hhead htail
    exact forall_mem_cons.mpr ⟨hhead, htail⟩

/-- The next step of the sequence has the index `n`: all that is going on has counted `n` steps
from the start of the run. -/
inductive Ready (n : ℤ) : FrameSequence → Prop where
  | primitive {fs progress} (hn : progress.firstStep + progress.step = n) :
      Ready n (.primitive fs progress)
  | sequentialFs {elements progress elementIndex element}
      (hn : progress.firstStep + progress.step = n)
      (hat : elementAt elements elementIndex = .ok element) (helement : Ready n element) :
      Ready n (.sequentialFs elements progress elementIndex)
  | sequentialEnded {elements progress elementIndex}
      (hn : progress.firstStep + progress.step = n)
      (hend : (elements.length : ℤ) ≤ elementIndex) :
      Ready n (.sequentialFs elements progress elementIndex)
  | optionalFs {element progress apply} (hn : progress.firstStep + progress.step = n)
      (helement : apply = true → Ready n element) : Ready n (.optionalFs element progress apply)
  | repeatingFs {element progress apply count histories}
      (hn : progress.firstStep + progress.step = n)
      (helement : apply = true → Ready n element) :
      Ready n (.repeatingFs element progress apply count histories)
  | alternativesFs {elements progress elementIndex element}
      (hn : progress.firstStep + progress.step = n)
      (hat : elementAt elements elementIndex = .ok element) (helement : Ready n element) :
      Ready n (.alternativesFs elements progress elementIndex)

/-- The sequence has prepared the step with the index `n`, which is a reception if `receives`, and
so have the elements on the way to the primitive that has made it: all of them are there. -/
inductive Pending (n : ℕ) (receives : Bool) : FrameSequence → Prop where
  | primitive {fs progress stage} (hn : progress.firstStep + progress.step = (n : ℤ))
      (hprepared : progress.prepared = some (some n))
      (hstage : fs.stage progress.step = some stage) (hkind : stage.isReception = receives) :
      Pending n receives (.primitive fs progress)
  | sequentialFs {elements progress elementIndex element}
      (hn : progress.firstStep + progress.step = (n : ℤ))
      (hprepared : progress.prepared = some (some n))
      (hat : elementAt elements elementIndex = .ok element)
      (helement : Pending n receives element) :
      Pending n receives (.sequentialFs elements progress elementIndex)
  | optionalFs {element : FrameSequence} {progress : Progress}
      (hn : progress.firstStep + progress.step = (n : ℤ))
      (hprepared : progress.prepared = some (some n)) (helement : Pending n receives element) :
      Pending n receives (.optionalFs element progress true)
  | repeatingFs {element progress count histories}
      (hn : progress.firstStep + progress.step = (n : ℤ))
      (hprepared : progress.prepared = some (some n)) (helement : Pending n receives element) :
      Pending n receives (.repeatingFs element progress true count histories)
  | alternativesFs {elements progress elementIndex element}
      (hn : progress.firstStep + progress.step = (n : ℤ))
      (hprepared : progress.prepared = some (some n))
      (hat : elementAt elements elementIndex = .ok element)
      (helement : Pending n receives element) :
      Pending n receives (.alternativesFs elements progress elementIndex)

/-- Only queries have been made. -/
structure Unchanged (context context' : FrameSequenceContext) : Prop where
  steps : context'.steps = context.steps
  allocated : context'.allocated = context.allocated
  calls : context'.calls = context.calls

theorem Unchanged.refl (context : FrameSequenceContext) : Unchanged context context :=
  ⟨rfl, rfl, rfl⟩

theorem Unchanged.trans {context₁ context₂ context₃ : FrameSequenceContext}
    (h : Unchanged context₁ context₂) (h' : Unchanged context₂ context₃) :
    Unchanged context₁ context₃ :=
  ⟨h'.steps.trans h.steps, h'.allocated.trans h.allocated, h'.calls.trans h.calls⟩

variable {env : Environment} {context context' : FrameSequenceContext}

theorem unchanged_of_isSequenceApply {apply : Bool}
    (h : context.isSequenceApply env = .ok (apply, context')) : Unchanged context context' := by
  obtain ⟨answer, -, hok⟩ := bind_eq_ok.mp h
  cases hok
  exact ⟨rfl, rfl, rfl⟩

theorem unchanged_of_selectSequence {index : ℤ}
    (h : context.selectSequence env = .ok (index, context')) : Unchanged context context' := by
  obtain ⟨answer, -, hok⟩ := bind_eq_ok.mp h
  cases hok
  exact ⟨rfl, rfl, rfl⟩

theorem elementAt_cons (hi : i ≠ 0) :
    elementAt (element :: elements) i = elementAt elements (i - 1) := by
  unfold elementAt
  by_cases hneg : 0 ≤ i
  · have hpred : i.toNat = (i - 1).toNat + 1 := by omega
    rw [if_pos hneg, if_pos (by omega), hpred, getElem?_cons_succ]
  · rw [if_neg hneg, if_neg (by omega)]

theorem mem_of_elementAt (h : elementAt elements i = .ok element) : element ∈ elements := by
  unfold elementAt at h
  split at h
  case h_1 found hfound =>
    cases h
    split_ifs at hfound
    exact mem_of_getElem? hfound
  case h_2 => cases h

theorem elementAt_set {new : FrameSequence} (h : elementAt elements i = .ok element) :
    elementAt (elements.set i.toNat new) i = .ok new := by
  unfold elementAt at h ⊢
  split_ifs at h ⊢ with hi
  · cases hget : elements[i.toNat]? with
    | none =>
      rw [hget] at h
      cases h
    | some old =>
      rw [getElem?_set_self (List.getElem?_eq_some_iff.mp hget).1]

/-- Starting an element leaves the other ones as they are. -/
theorem startElement_spec {elements' : List FrameSequence} {firstStep : ℤ}
    (h : startElement env elements i context firstStep = .ok (elements', context')) :
    ∃ element element', elementAt elements i = .ok element ∧
      element.startSequence env context firstStep = .ok (element', context') ∧
      elementAt elements' i = .ok element' ∧ elements'.length = elements.length := by
  induction elements generalizing i elements' with
  | nil => cases h
  | cons element elements ih =>
    rw [startElement] at h
    split_ifs at h with hi
    · obtain ⟨⟨element', _⟩, hstart, hok⟩ := bind_eq_ok.mp h
      cases hok
      subst hi
      exact ⟨element, element', rfl, hstart, rfl, rfl⟩
    · obtain ⟨⟨rest, _⟩, hrest, hok⟩ := bind_eq_ok.mp h
      cases hok
      obtain ⟨found, found', hat, hstart, hat', hlength⟩ := ih hrest
      exact ⟨found, found', (elementAt_cons hi).trans hat, hstart,
        (elementAt_cons hi).trans hat', congrArg (· + 1) hlength⟩

/-- A sequence that has been started is ready for the step it has been started with. -/
theorem startSequence_spec (fs : FrameSequence) :
    ∀ {context context' : FrameSequenceContext} {fs' : FrameSequence} {firstStep : ℤ},
      fs.startSequence env context firstStep = .ok (fs', context') →
        Ready firstStep fs' ∧ Unchanged context context' := by
  induction fs using FrameSequence.induction with
  | primitive fs progress =>
    intro context context' fs' firstStep h
    cases h
    exact ⟨.primitive (Int.add_zero _), .refl _⟩
  | sequentialFs elements progress elementIndex ih =>
    intro context context' fs' firstStep h
    rw [startSequence] at h
    split_ifs at h with hpos
    · obtain ⟨⟨elements', _⟩, hstart, hok⟩ := bind_eq_ok.mp h
      cases hok
      obtain ⟨element, element', hat, hstart, hat', -⟩ := startElement_spec hstart
      obtain ⟨hready, hsame⟩ := ih element (mem_of_elementAt hat) hstart
      exact ⟨.sequentialFs (Int.add_zero _) hat' hready, hsame⟩
    · cases h
      refine ⟨.sequentialEnded (Int.add_zero _) ?_, .refl _⟩
      exact Int.ofNat_le.mpr (Nat.le_of_not_lt hpos)
  | optionalFs element progress apply ih =>
    intro context context' fs' firstStep h
    obtain ⟨⟨applies, asked⟩, hask, h⟩ := bind_eq_ok.mp h
    have hasked := unchanged_of_isSequenceApply hask
    cases applies with
    | true =>
      obtain ⟨⟨element', _⟩, hstart, hok⟩ := bind_eq_ok.mp h
      cases hok
      obtain ⟨hready, hsame⟩ := ih hstart
      exact ⟨.optionalFs (Int.add_zero _) fun _ => hready, hasked.trans hsame⟩
    | false =>
      cases h
      exact ⟨.optionalFs (Int.add_zero _) fun h => absurd h Bool.false_ne_true, hasked⟩
  | repeatingFs element progress apply count histories ih =>
    intro context context' fs' firstStep h
    obtain ⟨⟨applies, asked⟩, hask, h⟩ := bind_eq_ok.mp h
    have hasked := unchanged_of_isSequenceApply hask
    cases applies with
    | true =>
      obtain ⟨⟨element', _⟩, hstart, h⟩ := bind_eq_ok.mp h
      obtain ⟨history, -, hok⟩ := bind_eq_ok.mp h
      cases hok
      obtain ⟨hready, hsame⟩ := ih hstart
      exact ⟨.repeatingFs (Int.add_zero _) fun _ => hready, hasked.trans hsame⟩
    | false =>
      cases h
      exact ⟨.repeatingFs (Int.add_zero _) fun h => absurd h Bool.false_ne_true, hasked⟩
  | alternativesFs elements progress elementIndex ih =>
    intro context context' fs' firstStep h
    obtain ⟨⟨index, asked⟩, hselect, h⟩ := bind_eq_ok.mp h
    have hasked := unchanged_of_selectSequence hselect
    obtain ⟨⟨elements', _⟩, hstart, hok⟩ := bind_eq_ok.mp h
    cases hok
    obtain ⟨element, element', hat, hstart, hat', -⟩ := startElement_spec hstart
    obtain ⟨hready, hsame⟩ := ih element (mem_of_elementAt hat) hstart
    exact ⟨.alternativesFs (Int.add_zero _) hat' hready, hasked.trans hsame⟩

/-- What `prepareStep` does with `n` steps in the context: the step that it returns is the object
`n`, and everything on the way to it awaits its completion. Without one, the sequence stays where
it is. -/
structure Prepares (n : ℕ) (context context' : FrameSequenceContext)
    (step : Option FrameSequenceStep) (fs' : FrameSequence) : Prop where
  steps : context'.steps = context.steps
  calls : context'.calls = context.calls
  allocated : context'.allocated = n + step.toList.length
  ready : step = none → Ready n fs'
  id : ∀ s, step = some s → s.id = n
  pending : ∀ s, step = some s → Pending n s.kind.isReceiveStep fs'

theorem Prepares.of_none (hsame : Unchanged context context') (hallocated : context.allocated = n)
    (hready : Ready n fs') : Prepares n context context' none fs' :=
  ⟨hsame.steps, hsame.calls, hsame.allocated.trans hallocated, fun _ => hready,
    (fun _ h => nomatch h), (fun _ h => nomatch h)⟩

/-- The element of a sequence has been asked for its step. -/
theorem Prepares.of_element (h : Prepares n context context' step element')
    (hready : Ready n element' → Ready n fs')
    (hpending : ∀ s, step = some s → Pending n s.kind.isReceiveStep element' →
      Pending n s.kind.isReceiveStep fs') : Prepares n context context' step fs' :=
  ⟨h.steps, h.calls, h.allocated, fun hnone => hready (h.ready hnone), h.id,
    fun s hsome => hpending s hsome (h.pending s hsome)⟩

theorem Prepares.unchanged (h : Prepares n context context' none fs')
    (hallocated : context.allocated = n) : Unchanged context context' :=
  ⟨h.steps, h.allocated.trans hallocated.symm, h.calls⟩

/-- A sequence returns the step of its element. -/
theorem Prepares.prepared (h : Prepares n context context' step element') (progress : Progress)
    {s : FrameSequenceStep} (hs : step = some s) :
    (progress.returned step).prepared = some (some n) := by
  rw [Progress.returned, hs, Option.map_some, h.id s hs]

/-- Queries before the step do not matter. -/
theorem Prepares.of_unchanged {asked : FrameSequenceContext} (hsame : Unchanged context asked)
    (h : Prepares n asked context' step fs') : Prepares n context context' step fs' :=
  ⟨h.steps.trans hsame.steps, h.calls.trans hsame.calls, h.allocated, h.ready, h.id, h.pending⟩

/-- A new step object, perhaps after a query. -/
structure Makes (context context' : FrameSequenceContext) (step : Option FrameSequenceStep)
    (receives : Bool) : Prop where
  steps : context'.steps = context.steps
  calls : context'.calls = context.calls
  allocated : context'.allocated = context.allocated + 1
  step : ∃ kind, step = some { id := context.allocated, kind } ∧ kind.isReceiveStep = receives

theorem stage_prepareStep_spec {stage : Stage}
    (h : stage.prepareStep env context = .ok (step, context')) :
    Makes context context' step stage.isReception := by
  cases stage with
  | transmitRts =>
    obtain ⟨frame, -, hok⟩ := bind_eq_ok.mp h
    cases hok
    exact ⟨rfl, rfl, rfl, _, rfl, rfl⟩
  | transmitFrame accepts =>
    obtain ⟨frame, -, hok⟩ := bind_eq_ok.mp h
    cases hok
    exact ⟨rfl, rfl, rfl, _, rfl, rfl⟩
  | transmitAnyFrame =>
    cases h
    exact ⟨rfl, rfl, rfl, _, rfl, rfl⟩
  | transmitBlockAckReq =>
    cases h
    exact ⟨rfl, rfl, rfl, _, rfl, rfl⟩
  | receiveCts =>
    rw [Stage.prepareStep] at h
    split at h
    · obtain ⟨frame, -, hok⟩ := bind_eq_ok.mp h
      cases hok
      exact ⟨rfl, rfl, rfl, _, rfl, rfl⟩
    · cases h
  | receiveResponse answered accepted =>
    obtain ⟨frame, -, hok⟩ := bind_eq_ok.mp h
    cases hok
    exact ⟨rfl, rfl, rfl, _, rfl, rfl⟩

theorem primitive_prepareStep_spec {fs : Primitive}
    (h : fs.prepareStep env progress context = .ok (step, context')) :
    (step = none ∧ context' = context) ∨ ∃ stage, fs.stage progress.step = some stage ∧
      Makes context context' step stage.isReception := by
  unfold Primitive.prepareStep at h
  split at h
  · cases h
    exact .inl ⟨rfl, rfl⟩
  · split at h
    case h_1 stage hstage => exact .inr ⟨stage, hstage, stage_prepareStep_spec h⟩
    · split_ifs at h
      cases h
      exact .inl ⟨rfl, rfl⟩

theorem repeatSequence_spec {count : ℤ} {histories : List String}
    (h : repeatSequence env element progress count histories context = .ok (fs', context')) :
    Ready (progress.firstStep + progress.step) fs' ∧ Unchanged context context' := by
  obtain ⟨⟨applies, asked⟩, hask, h⟩ := bind_eq_ok.mp h
  have hasked := unchanged_of_isSequenceApply hask
  cases applies with
  | true =>
    obtain ⟨⟨element', _⟩, hstart, h⟩ := bind_eq_ok.mp h
    obtain ⟨history, -, hok⟩ := bind_eq_ok.mp h
    cases hok
    obtain ⟨hready, hsame⟩ := startSequence_spec element hstart
    exact ⟨.repeatingFs rfl fun _ => hready, hasked.trans hsame⟩
  | false =>
    cases h
    exact ⟨.repeatingFs rfl fun h => absurd h Bool.false_ne_true, hasked⟩

theorem prepareStep_spec {fuel : ℕ} {fs : FrameSequence} (hready : Ready n fs)
    (hallocated : context.allocated = n)
    (h : fs.prepareStep env fuel context = .ok (step, fs', context')) :
    Prepares n context context' step fs' := by
  induction fuel generalizing fs fs' step context context' with
  | zero => cases h
  | succ fuel ih =>
    cases hready with
    | primitive hn =>
      obtain ⟨⟨made, _⟩, hmade, hok⟩ := bind_eq_ok.mp h
      cases hok
      obtain ⟨rfl, rfl⟩ | ⟨stage, hstage, hmakes⟩ := primitive_prepareStep_spec hmade
      · exact .of_none (.refl _) hallocated (.primitive hn)
      · obtain ⟨kind, rfl, hkind⟩ := hmakes.step
        refine ⟨hmakes.steps, hmakes.calls, ?_, (fun hnone => nomatch hnone), ?_, ?_⟩
        · rw [hmakes.allocated, hallocated]
          rfl
        · rintro s hs
          cases hs
          exact hallocated
        · intro s hs
          cases hs
          exact .primitive hn (congrArg (fun id => some (some id)) hallocated) hstage
            hkind.symm
    | @sequentialFs elements progress elementIndex element hn hat helement =>
      rw [prepareStep] at h
      split_ifs at h with hlt
      · rw [hat, ok_bind] at h
        obtain ⟨⟨elementStep, element', asked⟩, helementStep, h⟩ := bind_eq_ok.mp h
        have hprepares := ih helement hallocated helementStep
        cases elementStep with
        | some made =>
          cases h
          refine hprepares.of_element ?_ ?_
          · exact fun hready => .sequentialFs hn (elementAt_set hat) hready
          · intro s hs hpending
            exact .sequentialFs hn (hprepares.prepared progress hs) (elementAt_set hat)
              hpending
        | none =>
          have hasked := hprepares.unchanged hallocated
          dsimp only at h
          split_ifs at h with hmore
          · obtain ⟨⟨elements', started⟩, hstart, h⟩ := bind_eq_ok.mp h
            obtain ⟨next, next', -, hstart, hat', -⟩ := startElement_spec hstart
            obtain ⟨hready, hstarted⟩ := startSequence_spec next hstart
            rw [hn] at hready
            have hsame := hasked.trans hstarted
            exact .of_unchanged hsame (ih (.sequentialFs hn hat' hready)
              (hsame.allocated.trans hallocated) h)
          · refine .of_unchanged hasked (ih (.sequentialEnded hn ?_)
              (hasked.allocated.trans hallocated) h)
            rw [length_set] at hmore ⊢
            exact Int.not_lt.mp hmore
      · cases h
        exact .of_none (.refl _) hallocated (.sequentialEnded hn (Int.not_lt.mp hlt))
    | sequentialEnded hn hend =>
      rw [prepareStep, if_neg (Int.not_lt.mpr hend)] at h
      cases h
      exact .of_none (.refl _) hallocated (.sequentialEnded hn hend)
    | @optionalFs element progress apply hn helement =>
      cases apply with
      | true =>
        obtain ⟨⟨elementStep, element', _⟩, helementStep, hok⟩ := bind_eq_ok.mp h
        cases hok
        have hprepares := ih (helement rfl) hallocated helementStep
        refine hprepares.of_element (fun hready => .optionalFs hn fun _ => hready) ?_
        intro s hs hpending
        exact .optionalFs hn (hprepares.prepared progress hs) hpending
      | false =>
        cases h
        exact .of_none (.refl _) hallocated (.optionalFs hn helement)
    | @repeatingFs element progress apply count histories hn helement =>
      cases apply with
      | true =>
        obtain ⟨⟨elementStep, element', asked⟩, helementStep, h⟩ := bind_eq_ok.mp h
        have hprepares := ih (helement rfl) hallocated helementStep
        cases elementStep with
        | some made =>
          cases h
          refine hprepares.of_element (fun hready => .repeatingFs hn fun _ => hready) ?_
          intro s hs hpending
          exact .repeatingFs hn (hprepares.prepared progress hs) hpending
        | none =>
          obtain ⟨⟨repeating, started⟩, hrepeat, h⟩ := bind_eq_ok.mp h
          obtain ⟨hready, hstarted⟩ := repeatSequence_spec hrepeat
          rw [hn] at hready
          have hsame := (hprepares.unchanged hallocated).trans hstarted
          exact .of_unchanged hsame (ih hready (hsame.allocated.trans hallocated) h)
      | false =>
        cases h
        exact .of_none (.refl _) hallocated (.repeatingFs hn helement)
    | @alternativesFs elements progress elementIndex element hn hat helement =>
      rw [prepareStep, hat, ok_bind] at h
      obtain ⟨⟨elementStep, element', _⟩, helementStep, hok⟩ := bind_eq_ok.mp h
      cases hok
      have hprepares := ih helement hallocated helementStep
      refine hprepares.of_element
        (fun hready => .alternativesFs hn (elementAt_set hat) hready) ?_
      intro s hs hpending
      exact .alternativesFs hn (hprepares.prepared progress hs) (elementAt_set hat) hpending

/-- What `completeStep` does with the step `n`: the calls are those of `completeCalls`, and the
sequence goes on to the next step. -/
structure Completes (n : ℕ) (context context' : FrameSequenceContext) (complete : Bool)
    (fs fs' : FrameSequence) : Prop where
  steps : context'.steps = context.steps
  allocated : context'.allocated = context.allocated
  calls : context'.calls = context.calls ++ fs.completeCalls context
  ready : complete = true → Ready (n + 1) fs'

theorem completeElement_spec {elements' : List FrameSequence}
    (h : completeElement elements i context = .ok (complete, elements', context')) :
    ∃ element element', elementAt elements i = .ok element ∧
      element.completeStep context = .ok (complete, element', context') ∧
      elementAt elements' i = .ok element' := by
  induction elements generalizing i elements' with
  | nil => cases h
  | cons element elements ih =>
    rw [completeElement] at h
    split_ifs at h with hi
    · obtain ⟨⟨_, element', _⟩, hcomplete, hok⟩ := bind_eq_ok.mp h
      cases hok
      subst hi
      exact ⟨element, element', rfl, hcomplete, rfl⟩
    · obtain ⟨⟨_, rest, _⟩, hrest, hok⟩ := bind_eq_ok.mp h
      cases hok
      obtain ⟨found, found', hat, hcomplete, hat'⟩ := ih hrest
      exact ⟨found, found', (elementAt_cons hi).trans hat, hcomplete,
        (elementAt_cons hi).trans hat'⟩

theorem primitive_completeStep_spec {fs : Primitive} {progress' : Progress}
    (h : fs.completeStep progress context = .ok (complete, progress')) :
    complete = true → progress' = progress.stepped := by
  intro htrue
  unfold Primitive.completeStep at h
  split at h
  · cases h
    cases htrue
  · split at h
    · obtain ⟨complete, -, hok⟩ := bind_eq_ok.mp h
      cases hok
      rfl
    · cases h

/-- A call on the way to the primitive. -/
theorem Completes.of_element {fs : FrameSequence}
    (h : Completes n (context.noteCall false progress) context' complete element element')
    (hcalls : fs.completeCalls context = context.callOf false progress ::
      element.completeCalls (context.noteCall false progress))
    (hready : Ready (n + 1) element' → Ready (n + 1) fs') :
    Completes n context context' complete fs fs' := by
  refine ⟨h.steps, h.allocated, ?_, fun htrue => hready (h.ready htrue)⟩
  rw [h.calls, hcalls, noteCall, append_assoc]
  rfl

theorem stepped_eq (hn : progress.firstStep + progress.step = (n : ℤ)) :
    progress.stepped.firstStep + progress.stepped.step = (n : ℤ) + 1 := by
  rw [← hn, Int.add_assoc]
  rfl

theorem elementCalls_eq (hat : elementAt elements i = .ok element) :
    elementCalls elements i context = element.completeCalls context := by
  induction elements generalizing i with
  | nil =>
    unfold elementAt at hat
    split_ifs at hat
    all_goals cases hat
  | cons first elements ih =>
    rw [elementCalls]
    split_ifs with hi
    · subst hi
      cases hat
      rfl
    · exact ih ((elementAt_cons hi).symm.trans hat)

theorem completeStep_spec {fs : FrameSequence} {receives : Bool} (hpending : Pending n receives fs)
    (h : fs.completeStep context = .ok (complete, fs', context')) :
    Completes n context context' complete fs fs' := by
  induction hpending generalizing context fs' with
  | @primitive fs progress stage hn hprepared hstage hkind =>
    obtain ⟨⟨result, progress'⟩, hcomplete, hok⟩ := bind_eq_ok.mp h
    cases hok
    refine ⟨rfl, rfl, rfl, fun htrue => ?_⟩
    rw [primitive_completeStep_spec hcomplete htrue]
    exact .primitive (stepped_eq hn)
  | sequentialFs hn hprepared hat helement ih =>
    obtain ⟨⟨result, elements', _⟩, hcomplete, hok⟩ := bind_eq_ok.mp h
    cases hok
    obtain ⟨element, element', hat', helement', hnew⟩ := completeElement_spec hcomplete
    obtain rfl := Except.ok.inj (hat.symm.trans hat')
    refine (ih helement').of_element ?_ fun hready => .sequentialFs (stepped_eq hn) hnew hready
    rw [completeCalls, elementCalls_eq hat]
  | optionalFs hn hprepared helement ih =>
    obtain ⟨-, -, h⟩ := bind_eq_ok.mp h
    obtain ⟨⟨result, element', _⟩, hcomplete, hok⟩ := bind_eq_ok.mp h
    cases hok
    exact (ih hcomplete).of_element rfl fun hready => .optionalFs (stepped_eq hn) fun _ => hready
  | repeatingFs hn hprepared helement ih =>
    obtain ⟨-, -, h⟩ := bind_eq_ok.mp h
    obtain ⟨⟨result, element', _⟩, hcomplete, h⟩ := bind_eq_ok.mp h
    obtain ⟨history, -, h⟩ := bind_eq_ok.mp h
    split_ifs at h
    cases h
    exact (ih hcomplete).of_element rfl
      fun hready => .repeatingFs (stepped_eq hn) fun _ => hready
  | alternativesFs hn hprepared hat helement ih =>
    obtain ⟨⟨result, elements', _⟩, hcomplete, hok⟩ := bind_eq_ok.mp h
    cases hok
    obtain ⟨element, element', hat', helement', hnew⟩ := completeElement_spec hcomplete
    obtain rfl := Except.ok.inj (hat.symm.trans hat')
    refine (ih helement').of_element ?_
      fun hready => .alternativesFs (stepped_eq hn) hnew hready
    rw [completeCalls, elementCalls_eq hat]

/-- Every call finds the object `n`, which the sequence that is called has returned, and one of
them is a call of a primitive. -/
structure Finds (n : ℕ) (calls : List CompleteCall) : Prop where
  found : ∀ call ∈ calls, call.prepared = some (some n) ∧ call.found = some n
  primitive : (calls.filter CompleteCall.primitive).map CompleteCall.found = [some n]

theorem finds_completeCalls {fs : FrameSequence} {receives : Bool} (hpending : Pending n receives fs)
    (hfound : (context.getStep n).map FrameSequenceStep.id = some n) :
    Finds n (fs.completeCalls context) := by
  have hcall (primitive : Bool) {context : FrameSequenceContext} {progress : Progress}
      (hfound : (context.getStep n).map FrameSequenceStep.id = some n)
      (hn : progress.firstStep + progress.step = (n : ℤ))
      (hprepared : progress.prepared = some (some n)) :
      context.callOf primitive progress = ⟨primitive, some (some n), some n⟩ := by
    rw [callOf, hn, hprepared, hfound]
  have hcons {calls : List CompleteCall} (h : Finds n calls) :
      Finds n (⟨false, some (some n), some n⟩ :: calls) :=
    ⟨forall_mem_cons.mpr ⟨⟨rfl, rfl⟩, h.found⟩, h.primitive⟩
  induction hpending generalizing context with
  | primitive hn hprepared hstage hkind =>
    rw [completeCalls, hcall true hfound hn hprepared]
    exact ⟨fun call hmem => mem_singleton.mp hmem ▸ ⟨rfl, rfl⟩, rfl⟩
  | sequentialFs hn hprepared hat helement ih | alternativesFs hn hprepared hat helement ih =>
    rw [completeCalls, elementCalls_eq hat, hcall false hfound hn hprepared]
    exact hcons (ih hfound)
  | optionalFs hn hprepared helement ih | repeatingFs hn hprepared helement ih =>
    rw [completeCalls, if_pos rfl, hcall false hfound hn hprepared]
    exact hcons (ih hfound)

/-! ## The failures of `completeStep` -/

/-- What `getHistory` fails with, and `histories.at(..)`. -/
def HistoryError (e : Error) : Prop := e = .outOfRange ∨ e = .assertion "step != -1"

variable {e : Error}

theorem getHistories_error (ih : ∀ element ∈ elements, ∀ e, element.getHistory = .error e →
    HistoryError e) (h : getHistories elements i = .error e) : HistoryError e := by
  induction elements generalizing i with
  | nil => cases h
  | cons element elements ihs =>
    obtain ⟨hhead, htail⟩ := forall_mem_cons.mp ih
    rw [getHistories] at h
    split_ifs at h
    obtain h | ⟨history, -, h⟩ := bind_eq_error.mp h
    · exact hhead e h
    · obtain h | ⟨histories, -, h⟩ := bind_eq_error.mp h
      · exact ihs htail h
      · cases h

theorem getElementHistory_error (ih : ∀ element ∈ elements, ∀ e, element.getHistory = .error e →
    HistoryError e) (h : getElementHistory elements i = .error e) : HistoryError e := by
  induction elements generalizing i with
  | nil =>
    cases h
    exact .inl rfl
  | cons element elements ihs =>
    obtain ⟨hhead, htail⟩ := forall_mem_cons.mp ih
    rw [getElementHistory] at h
    split_ifs at h
    · exact hhead e h
    · exact ihs htail h

theorem assert_error {cond : Bool} {text : String}
    (h : assert cond text = .error e) : e = .assertion text := by
  unfold assert at h
  split_ifs at h
  exact (Except.error.inj h).symm

theorem getHistory_error (fs : FrameSequence) : ∀ e, fs.getHistory = .error e → HistoryError e := by
  induction fs using FrameSequence.induction with
  | primitive fs progress => exact fun e h => nomatch h
  | sequentialFs elements progress elementIndex ih =>
    intro e h
    obtain h | ⟨-, -, h⟩ := bind_eq_error.mp h
    · exact .inr (assert_error h)
    · obtain h | ⟨histories, -, h⟩ := bind_eq_error.mp h
      · exact getHistories_error ih h
      · cases h
  | optionalFs element progress apply ih =>
    intro e h
    obtain h | ⟨-, -, h⟩ := bind_eq_error.mp h
    · exact .inr (assert_error h)
    · split_ifs at h
      obtain h | ⟨history, -, h⟩ := bind_eq_error.mp h
      · exact ih e h
      · cases h
  | repeatingFs element progress apply count histories ih =>
    intro e h
    obtain h | ⟨-, -, h⟩ := bind_eq_error.mp h
    · exact .inr (assert_error h)
    · cases histories with
      | nil =>
        cases h
        exact .inl rfl
      | cons history histories => cases h
  | alternativesFs elements progress elementIndex ih =>
    intro e h
    obtain h | ⟨-, -, h⟩ := bind_eq_error.mp h
    · exact .inr (assert_error h)
    · exact getElementHistory_error ih h

theorem completeElement_error (hat : elementAt elements i = .ok element)
    (h : completeElement elements i context = .error e) : element.completeStep context = .error e := by
  induction elements generalizing i with
  | nil =>
    unfold elementAt at hat
    split_ifs at hat
    all_goals cases hat
  | cons first elements ih =>
    rw [completeElement] at h
    split_ifs at h with hi
    · subst hi
      cases hat
      obtain h | ⟨r, -, h⟩ := bind_eq_error.mp h
      · exact h
      · cases h
    · obtain h | ⟨r, -, h⟩ := bind_eq_error.mp h
      · exact ih ((elementAt_cons hi).symm.trans hat) h
      · cases h

theorem accepts_error {made : FrameSequenceStep} {accepted : FrameType}
    (hkind : made.kind.isReceiveStep = true)
    (h : Stage.accepts context (some made) accepted = .error e) :
    made.kind = .receiveStep none ∧ e = .cRuntimeError "null pointer" := by
  obtain ⟨id, kind⟩ := made
  cases kind with
  | transmitStep | rtsTransmitStep => cases hkind
  | receiveStep receivedFrame =>
    cases receivedFrame with
    | none => exact ⟨rfl, (Except.error.inj h).symm⟩
    | some frame => cases h

/-- The completion of a step that is pending fails if a reception has no frame, or in
`getHistory`. So the primitive has a case for its step, and the sequences on the way apply. -/
theorem completeStep_error {fs : FrameSequence} {receives : Bool} (hpending : Pending n receives fs)
    {made : FrameSequenceStep} (hstep : context.getStep n = some made)
    (hkind : made.kind.isReceiveStep = receives) (h : fs.completeStep context = .error e) :
    made.kind = .receiveStep none ∧ e = .cRuntimeError "null pointer" ∨ HistoryError e := by
  induction hpending generalizing context with
  | @primitive fs progress stage hn hprepared hstage hreceives =>
    left
    obtain h | ⟨r, -, h⟩ := bind_eq_error.mp h
    · unfold Primitive.completeStep at h
      split at h
      · cases h
      · rw [hstage] at h
        obtain h | ⟨r, -, h⟩ := bind_eq_error.mp h
        · have hfound : (context.noteCall true progress).getStep
              (progress.firstStep + progress.step) = some made := by
            rw [hn]
            exact hstep
          rw [hfound] at h
          cases stage with
          | receiveCts | receiveResponse => exact accepts_error (hkind.trans hreceives.symm) h
          | transmitRts | transmitFrame | transmitAnyFrame | transmitBlockAckReq => cases h
        · cases h
    · cases h
  | sequentialFs hn hprepared hat helement ih | alternativesFs hn hprepared hat helement ih =>
    obtain h | ⟨r, -, h⟩ := bind_eq_error.mp h
    · refine ih ?_ (completeElement_error hat h)
      exact hstep
    · cases h
  | optionalFs hn hprepared helement ih =>
    rw [completeStep, assert_true, ok_bind] at h
    obtain h | ⟨r, -, h⟩ := bind_eq_error.mp h
    · refine ih ?_ h
      exact hstep
    · cases h
  | repeatingFs hn hprepared helement ih =>
    rw [completeStep, assert_true, ok_bind] at h
    obtain h | ⟨⟨result, element', _⟩, -, h⟩ := bind_eq_error.mp h
    · refine ih ?_ h
      exact hstep
    · obtain h | ⟨history, -, h⟩ := bind_eq_error.mp h
      · exact .inr (getHistory_error element' e h)
      · split_ifs at h
        cases h
        exact .inr (.inl rfl)

end FrameSequence

namespace FrameSequenceHandler

open FrameSequence

/-- The primitive sequences whose `completeStep` has been called, each with the object that it
found. -/
def completed (handler : FrameSequenceHandler) : List (Option ℕ) :=
  (handler.context.calls.filter CompleteCall.primitive).map CompleteCall.found

/-- Every step object that has been made is in the context, every call of `completeStep` has found
the object that the same sequence had returned from its last `prepareStep`, and the primitives have
completed the steps one after the other, all but perhaps the last one. -/
structure Aligned (handler : FrameSequenceHandler) : Prop where
  objects : handler.context.steps.map FrameSequenceStep.id = List.range handler.context.steps.length
  added : handler.context.allocated = handler.context.steps.length
  found : ∀ call ∈ handler.context.calls, call.found.isSome ∧ call.prepared = some call.found
  order : handler.completed = (List.range handler.completed.length).map some
  pending : handler.completed.length ≤ handler.context.steps.length ∧
    handler.context.steps.length ≤ handler.completed.length + 1

/-- While a sequence runs, its last step is pending. -/
structure Running (handler : FrameSequenceHandler) : Prop where
  aligned : Aligned handler
  pending : ∀ fs ∈ handler.frameSequence,
    handler.context.steps.length = handler.completed.length + 1 ∧
      ∃ step, handler.context.getLastStep = some step ∧
        Pending handler.completed.length step.kind.isReceiveStep fs

/-- Between two steps. -/
structure Resting (handler : FrameSequenceHandler) : Prop where
  aligned : Aligned handler
  done : handler.completed.length = handler.context.steps.length
  ready : ∀ fs ∈ handler.frameSequence, Ready handler.context.steps.length fs

variable {env : Environment} {fuel : ℕ} {handler handler' : FrameSequenceHandler}

/-- Queries change nothing of the record. -/
theorem Aligned.of_unchanged {handler' : FrameSequenceHandler} (h : Aligned handler)
    (hsame : Unchanged handler.context handler'.context) : Aligned handler' := by
  have hcompleted : handler'.completed = handler.completed := by
    rw [completed, hsame.calls]
    rfl
  refine ⟨?_, ?_, ?_, ?_, ?_⟩
  · rw [hsame.steps]
    exact h.objects
  · rw [hsame.steps, hsame.allocated]
    exact h.added
  · rw [hsame.calls]
    exact h.found
  · rw [hcompleted]
    exact h.order
  · rw [hcompleted, hsame.steps]
    exact h.pending

theorem startFrameSequenceStep_spec (h : Resting handler)
    (hok : handler.startFrameSequenceStep env fuel = .ok handler') : Running handler' := by
  unfold startFrameSequenceStep at hok
  cases hrunning : handler.frameSequence with
  | none =>
    rw [hrunning] at hok
    cases hok
  | some fs =>
    rw [hrunning] at hok
    obtain ⟨⟨nextStep, fs', context⟩, hprepare, hok⟩ := bind_eq_ok.mp hok
    have hprepares := prepareStep_spec (h.ready fs hrunning) h.aligned.added hprepare
    cases nextStep with
    | none =>
      cases hok
      refine ⟨h.aligned.of_unchanged (hprepares.unchanged h.aligned.added), ?_⟩
      exact fun fs hfs => nomatch hfs
    | some step =>
      cases hok
      have hcompleted : completed ⟨some fs', context.addStep step⟩ = handler.completed := by
        rw [completed, addStep, hprepares.calls]
        rfl
      have hsteps : (context.addStep step).steps = handler.context.steps ++ [step] := by
        rw [addStep, hprepares.steps]
      have hlength : (context.addStep step).steps.length = handler.context.steps.length + 1 := by
        rw [hsteps, length_append]
        rfl
      refine ⟨⟨?_, ?_, ?_, ?_, ?_⟩, ?_⟩
      · show (context.addStep step).steps.map _ = List.range (context.addStep step).steps.length
        rw [hlength, hsteps, map_append, h.aligned.objects, range_succ,
          map_singleton, hprepares.id step rfl]
      · exact hprepares.allocated.trans hlength.symm
      · exact hprepares.calls ▸ h.aligned.found
      · rw [hcompleted]
        exact h.aligned.order
      · rw [hcompleted, h.done]
        show _ ≤ (context.addStep step).steps.length ∧ (context.addStep step).steps.length ≤ _
        rw [hlength]
        exact ⟨Nat.le_succ _, Nat.le_refl _⟩
      · intro fs hfs
        cases hfs
        have hlast : (context.addStep step).getLastStep = some step := by
          rw [FrameSequenceContext.getLastStep, hsteps, getLast?_concat]
        rw [hcompleted, h.done]
        exact ⟨hlength, step, hlast, hprepares.pending step rfl⟩

theorem abortFrameSequence_eq (hok : handler.abortFrameSequence = .ok handler') :
    handler' = { handler with frameSequence := none } := by
  unfold abortFrameSequence at hok
  dsimp only at hok
  split_ifs at hok
  all_goals
    obtain ⟨-, -, hok⟩ := bind_eq_ok.mp hok
    exact (Except.ok.inj hok).symm

theorem Aligned.running (h : Aligned handler) (hnone : handler.frameSequence = none) :
    Running handler := by
  refine ⟨h, fun fs hfs => ?_⟩
  rw [hnone] at hfs
  cases hfs

/-- The object at an index has that number. -/
theorem Aligned.getStep {n : ℕ} (h : Aligned handler) (hn : n < handler.context.steps.length) :
    (handler.context.getStep n).map FrameSequenceStep.id = some n := by
  rw [FrameSequenceContext.getStep, if_pos (Int.natCast_nonneg n), Int.toNat_natCast,
    ← getElem?_map, h.objects, getElem?_range hn]

theorem getStep_last {context : FrameSequenceContext} {n : ℕ}
    (hlength : context.steps.length = n + 1) : context.getStep n = context.getLastStep := by
  rw [FrameSequenceContext.getStep, if_pos (Int.natCast_nonneg n), Int.toNat_natCast,
    FrameSequenceContext.getLastStep, getLast?_eq_getElem?, hlength, Nat.add_sub_cancel]

/-- The step `n` has been completed. -/
theorem Aligned.completes {n : ℕ} {complete : Bool} {fs fs' : FrameSequence}
    {context' : FrameSequenceContext} (h : Aligned handler)
    (hlength : handler.context.steps.length = n + 1) (hdone : handler.completed.length = n)
    (hcompletes : Completes n handler.context context' complete fs fs')
    (hfinds : Finds n (fs.completeCalls handler.context)) (frameSequence : Option FrameSequence) :
    Aligned ⟨frameSequence, context'⟩ ∧
      (completed ⟨frameSequence, context'⟩).length = context'.steps.length := by
  have hcompleted : completed ⟨frameSequence, context'⟩ = handler.completed ++ [some n] := by
    rw [completed, hcompletes.calls, filter_append, map_append, hfinds.primitive]
    rfl
  have hcount : (completed ⟨frameSequence, context'⟩).length = n + 1 := by
    rw [hcompleted, length_append, hdone]
    rfl
  have hsteps : context'.steps.length = n + 1 := by
    rw [hcompletes.steps, hlength]
  refine ⟨⟨?_, ?_, ?_, ?_, ?_⟩, hcount.trans hsteps.symm⟩
  · rw [hcompletes.steps]
    exact h.objects
  · rw [hcompletes.steps, hcompletes.allocated]
    exact h.added
  · intro call hcall
    rw [hcompletes.calls] at hcall
    obtain hold | hnew := mem_append.mp hcall
    · exact h.found call hold
    · obtain ⟨hprepared, hfound⟩ := hfinds.found call hnew
      rw [hprepared, hfound]
      exact ⟨rfl, rfl⟩
  · rw [hcount, hcompleted, h.order, hdone, range_succ, map_append]
    rfl
  · rw [hcount]
    exact ⟨hsteps.ge, hsteps.le.trans (Nat.le_succ _)⟩

theorem finishFrameSequenceStep_spec (h : Running handler)
    (hok : handler.finishFrameSequenceStep = .ok handler') :
    Resting handler' ∧ handler'.frameSequence.isSome ∨
      Running handler' ∧ handler'.frameSequence = none := by
  unfold finishFrameSequenceStep at hok
  cases hrunning : handler.frameSequence with
  | none =>
    rw [hrunning] at hok
    cases hok
  | some fs =>
    rw [hrunning] at hok
    obtain ⟨⟨stepResult, fs', context⟩, hcomplete, hok⟩ := bind_eq_ok.mp hok
    obtain ⟨hlength, step, -, hpending⟩ := h.pending fs hrunning
    have hcompletes := completeStep_spec hpending hcomplete
    have hfinds := finds_completeCalls hpending (h.aligned.getStep (by omega))
    obtain ⟨haligned, hcount⟩ := h.aligned.completes hlength rfl hcompletes hfinds (some fs')
    cases stepResult with
    | false =>
      right
      obtain rfl := abortFrameSequence_eq hok
      exact ⟨Aligned.running (haligned.of_unchanged (.refl _)) rfl, rfl⟩
    | true =>
      left
      have hresting : Resting ⟨some fs', context⟩ := by
        refine ⟨haligned, hcount, fun fs hfs => ?_⟩
        cases hfs
        show Ready (context.steps.length : ℤ) fs'
        rw [hcompletes.steps, hlength]
        exact hcompletes.ready rfl
      simp only [Bool.not_true, Bool.false_eq_true, if_false] at hok
      split_ifs at hok
      · obtain ⟨-, -, hok⟩ := bind_eq_ok.mp hok
        cases hok
        exact ⟨hresting, rfl⟩
      · cases hok
        exact ⟨hresting, rfl⟩

theorem nextFrameSequenceStep_spec (h : Running handler)
    (hok : handler.nextFrameSequenceStep env fuel = .ok handler') : Running handler' := by
  obtain ⟨finished, hfinish, hok⟩ := bind_eq_ok.mp hok
  obtain ⟨hresting, hsome⟩ | ⟨hrunning, hnone⟩ := finishFrameSequenceStep_spec h hfinish
  · rw [if_pos hsome] at hok
    exact startFrameSequenceStep_spec hresting hok
  · rw [hnone] at hok
    cases hok
    exact hrunning

theorem setFrameToReceive_ids (context : FrameSequenceContext) (frame : Ieee80211Frame) :
    (context.setFrameToReceive frame).steps.map FrameSequenceStep.id =
      context.steps.map FrameSequenceStep.id := by
  rw [FrameSequenceContext.setFrameToReceive]
  cases hlast : context.steps.getLast? with
  | none =>
    rw [getLast?_eq_none_iff] at hlast
    rw [hlast]
    rfl
  | some last =>
    obtain ⟨front, hfront⟩ := getLast?_eq_some_iff.mp hlast
    rw [hfront, dropLast_concat, map_append, map_append]
    rfl

/-- A received frame is put into the last step, a reception. -/
theorem Running.setFrameToReceive (h : Running handler) (frame : Ieee80211Frame)
    {received : Option Ieee80211Frame}
    (hlast : handler.context.getLastStep.map FrameSequenceStep.kind = some (.receiveStep received)) :
    Running { handler with context := handler.context.setFrameToReceive frame } := by
  have hids := setFrameToReceive_ids handler.context frame
  have hlength : (handler.context.setFrameToReceive frame).steps.length =
      handler.context.steps.length := by
    rw [← length_map FrameSequenceStep.id, hids, length_map]
  refine ⟨⟨?_, ?_, h.aligned.found, h.aligned.order, ?_⟩, ?_⟩
  · show (handler.context.setFrameToReceive frame).steps.map _ = List.range
      (handler.context.setFrameToReceive frame).steps.length
    rw [hids, hlength]
    exact h.aligned.objects
  · exact h.aligned.added.trans hlength.symm
  · show handler.completed.length ≤ (handler.context.setFrameToReceive frame).steps.length ∧
      (handler.context.setFrameToReceive frame).steps.length ≤ handler.completed.length + 1
    rw [hlength]
    exact h.aligned.pending
  · intro fs hfs
    obtain ⟨hcount, step, hstep, hpending⟩ := h.pending fs hfs
    have hkind : step.kind = .receiveStep received := by
      rw [hstep] at hlast
      exact Option.some.inj hlast
    rw [hkind] at hpending
    refine ⟨hlength.trans hcount, { step with kind := .receiveStep (some frame) }, ?_, hpending⟩
    have hlast' : handler.context.steps.getLast? = some step := hstep
    show (handler.context.setFrameToReceive frame).steps.getLast? = _
    rw [FrameSequenceContext.setFrameToReceive, hlast']
    exact getLast?_concat

/-- A new context, before any step. -/
theorem aligned_of_empty (hsteps : handler.context.steps = [])
    (hallocated : handler.context.allocated = 0) (hcalls : handler.context.calls = []) :
    Aligned handler := by
  have hcompleted : handler.completed = [] := by
    rw [completed, hcalls]
    rfl
  refine ⟨?_, ?_, ?_, ?_, ?_⟩
  · rw [hsteps]
    rfl
  · rw [hsteps, hallocated]
    rfl
  · rw [hcalls]
    exact fun call hcall => absurd hcall not_mem_nil
  · rw [hcompleted]
    rfl
  · rw [hcompleted, hsteps]
    exact ⟨Nat.le_refl 0, Nat.zero_le 1⟩

theorem Running.step (h : Running handler) {op : HandlerOp}
    (hok : handler.step env fuel op = .ok handler') : Running handler' := by
  cases op with
  | startFrameSequence fs address =>
    rw [FrameSequenceHandler.step] at hok
    split_ifs at hok
    obtain ⟨⟨fs', context⟩, hstart, hok⟩ := bind_eq_ok.mp hok
    obtain ⟨hready, hsame⟩ := startSequence_spec fs hstart
    refine startFrameSequenceStep_spec ⟨?_, ?_, ?_⟩ hok
    · exact aligned_of_empty hsame.steps hsame.allocated hsame.calls
    · show ((context.calls.filter CompleteCall.primitive).map CompleteCall.found).length =
        context.steps.length
      rw [hsame.calls, hsame.steps]
      rfl
    · intro fs hfs
      cases hfs
      show Ready (context.steps.length : ℤ) fs'
      rw [hsame.steps]
      exact hready
  | transmissionComplete =>
    rw [FrameSequenceHandler.step] at hok
    split_ifs at hok
    · exact nextFrameSequenceStep_spec h hok
    · cases hok
      exact h
  | processResponse frame =>
    rw [FrameSequenceHandler.step] at hok
    split at hok
    case h_1 hlast => exact nextFrameSequenceStep_spec (h.setFrameToReceive frame hlast) hok
    · cases hok
    · cases hok
  | handleStartRxTimeout =>
    rw [FrameSequenceHandler.step] at hok
    split at hok
    · obtain rfl := abortFrameSequence_eq hok
      exact Aligned.running (h.aligned.of_unchanged (.refl _)) rfl
    · cases hok
    · cases hok

/-- The sequence whose `completeStep` an operation calls, and the context that it gets. -/
def completing (handler : FrameSequenceHandler) :
    HandlerOp → Option (FrameSequence × FrameSequenceContext)
  | .transmissionComplete => handler.frameSequence.map (·, handler.context)
  | .processResponse frame =>
    match handler.frameSequence, handler.context.getLastStep.map FrameSequenceStep.kind with
    | some fs, some (.receiveStep _) => some (fs, handler.context.setFrameToReceive frame)
    | _, _ => none
  | _ => none

/-- What `completeStep` does when an operation calls it, whether the operation fails or not: every
call finds the object of the step after those that have been completed, one of them is a call of a
primitive, and no sequence that is called has ended. -/
structure CompletesNext (env : Environment) (fuel : ℕ) (handler : FrameSequenceHandler)
    (op : HandlerOp) (fs : FrameSequence) (context : FrameSequenceContext) : Prop where
  calls : ∃ rest, handler.step env fuel op = fs.completeStep context >>= rest
  steps : context.steps.length = handler.completed.length + 1
  finds : Finds handler.completed.length (fs.completeCalls context)
  fails : ∀ e, fs.completeStep context = .error e →
    context.getLastStep.map FrameSequenceStep.kind = some (.receiveStep none) ∧
      e = .cRuntimeError "null pointer" ∨ HistoryError e

theorem Running.finds (h : Running handler) {fs : FrameSequence}
    (hfs : handler.frameSequence = some fs) :
    handler.context.steps.length = handler.completed.length + 1 ∧
      Finds handler.completed.length (fs.completeCalls handler.context) ∧
      ∀ e, fs.completeStep handler.context = .error e →
        handler.context.getLastStep.map FrameSequenceStep.kind = some (.receiveStep none) ∧
          e = .cRuntimeError "null pointer" ∨ HistoryError e := by
  obtain ⟨hlength, step, hlast, hpending⟩ := h.pending fs hfs
  refine ⟨hlength, finds_completeCalls hpending (h.aligned.getStep (by omega)), ?_⟩
  intro e he
  obtain ⟨hkind, rfl⟩ | he :=
    completeStep_error hpending ((getStep_last hlength).trans hlast) rfl he
  · left
    rw [hlast, Option.map_some, hkind]
    exact ⟨rfl, rfl⟩
  · exact .inr he

theorem nextFrameSequenceStep_eq {fs : FrameSequence} (hfs : handler.frameSequence = some fs) :
    ∃ rest, handler.nextFrameSequenceStep env fuel = fs.completeStep handler.context >>= rest := by
  rw [nextFrameSequenceStep, finishFrameSequenceStep, hfs]
  exact ⟨_, bind_assoc ..⟩

theorem Running.completesNext (h : Running handler) {op : HandlerOp} {fs : FrameSequence}
    {context : FrameSequenceContext} (hop : handler.completing op = some (fs, context)) :
    CompletesNext env fuel handler op fs context := by
  cases op with
  | startFrameSequence | handleStartRxTimeout => cases hop
  | transmissionComplete =>
    obtain ⟨fs', hfs, heq⟩ := Option.map_eq_some_iff.mp hop
    cases heq
    obtain ⟨hsteps, hfinds, hfails⟩ := h.finds hfs
    refine ⟨?_, hsteps, hfinds, hfails⟩
    rw [FrameSequenceHandler.step, if_pos (Option.isSome_iff_exists.mpr ⟨fs, hfs⟩)]
    exact nextFrameSequenceStep_eq hfs
  | processResponse frame =>
    rw [completing] at hop
    split at hop
    case h_1 fs' received hfs hlast =>
      cases hop
      obtain ⟨hsteps, hfinds, hfails⟩ := (h.setFrameToReceive frame hlast).finds hfs
      refine ⟨?_, hsteps, hfinds, hfails⟩
      rw [FrameSequenceHandler.step, hfs, hlast]
      exact nextFrameSequenceStep_eq rfl
    · cases hop

/-- Whatever the tree is and however the environment answers, the calls of `completeStep` stay
aligned with the steps in every run of the handler, also those of an operation that fails. -/
theorem aligned_throughout (env : Environment) (fuel : ℕ) (ops : List HandlerOp) :
    Run.Throughout (step env fuel) Aligned {} ops ∧
      Run.Admissible (step env fuel) (fun handler op => ∀ fs context,
        handler.completing op = some (fs, context) →
          CompletesNext env fuel handler op fs context) {} ops := by
  have hstart : Running {} := (aligned_of_empty rfl rfl rfl).running rfl
  constructor
  · exact Run.Throughout.mono (fun handler h => Running.aligned h)
      (Run.throughout_of_preserved (fun _ _ _ h hok => h.step hok) hstart)
  · exact (Run.admissible_of_forall fun _ _ => trivial).mono_of_step
      (fun _ _ _ h _ hok => h.step hok) (fun _ _ h _ _ _ hop => h.completesNext hop) hstart

/-- A data frame and its acknowledgment, sent twice by a repetition that has an optional part
which is skipped. -/
example : (Run.exec
      (step
        { answer := fun query => .ok (if query = 0 ∨ query = 3 then 1 else 0)
          frameToTransmit := fun _ => some { frameClass := .dataFrame, type := .ST_DATA }
          blockAckReqReceiver := fun _ => 0 } 20)
      {}
      [.startFrameSequence
          (.repeatingFs (.sequentialFs
            [.optionalFs (.primitive .RtsCtsFs), .primitive .DataFs, .primitive .AckFs])) 7,
        .transmissionComplete,
        .processResponse { frameClass := .other, type := .ST_ACK, receiverAddress := 7 },
        .transmissionComplete]).map
        (fun handler => (handler.frameSequence.isSome, handler.completed)) =
      .ok (true, [some 0, some 1, some 2]) := by
  decide

end FrameSequenceHandler

end Inet.Ieee80211
