import GlassChain.Core.Transaction
import GlassChain.Library.Redelivery
import GlassChain.Library.Run

/-!
# The flow runner

A flow is a table of transitions. `FlowRunner::handle` returns the actions of the first transition
that takes an event, and writes down the state before it and the event; `FlowRunner::ack` moves the
count of executed actions and closes the transition at the last one. A caller that crashed in
between asks with `Event::Resumed` and is given the actions that were not acknowledged.

Storage and serialization are lossless, and the clock is after the Unix epoch, so the one error left
is a pending event that the table no longer takes.
-/

namespace GlassChain

open Library

inductive FlowEvent where
  | recordCommitted (record : CanonicalRecord)
  | transactionCommitted (kind : TransactionKind)
  | woken (reason : String)
  | resumed (reason : String)

inductive Action where
  | emitTransaction (tx : Transaction)
  | emitRecord (record : CanonicalRecord)

structure TransitionResult (S : Type) where
  state : S
  actions : List Action
  completed : Bool

structure Transition (S : Type) where
  name : String
  /-- `Transition::matches`. -/
  matchesPair : S → FlowEvent → Bool
  apply : S → FlowEvent → TransitionResult S

class FlowState (S : Type) where
  step : S → String

structure FlowRunner (S : Type) where
  flowKind : String
  transitions : List (Transition S)

structure FlowOutcome (S : Type) where
  state : S
  actions : List Action
  completed : Bool

structure Checkpoint (S : Type) where
  flowId : String
  flowKind : String
  state : S
  pendingEvent : Option FlowEvent
  nextAction : Nat
  step : String
  updatedAt : Nat

structure TriageEntry where
  flowId : String
  flowKind : String
  step : String
  updatedAt : Nat

inductive WorkflowError where
  | serialization (text : String)
  | checkpointDeserialization (text : String)
  | checkpointMismatch (flowId event : String)

/-- The checkpoints in storage, which survive a crash, and the triage view, which does not. -/
structure FlowMemory (S : Type) where
  storage : AList fun _ : String => Checkpoint S
  triage : AList fun _ : String => TriageEntry

def FlowEvent.isResumed : FlowEvent → Bool
  | .resumed _ => true
  | _ => false

def FlowMemory.record {S : Type} (M : FlowMemory S) (entry : TriageEntry) : FlowMemory S :=
  { M with triage := M.triage.insert entry.flowId entry }

namespace FlowRunner

variable {S : Type} [FlowState S] (R : FlowRunner S) (debug : FlowEvent → String)

def tryApply (state : S) (event : FlowEvent) : Option (TransitionResult S) :=
  (R.transitions.find? (·.matchesPair state event)).map (·.apply state event)

def checkpoint (now : Nat) (flowId : String) (state : S) (pendingEvent : Option FlowEvent)
    (nextAction : Nat) : Checkpoint S :=
  ⟨flowId, R.flowKind, state, pendingEvent, nextAction, FlowState.step state, now⟩

def saveCheckpoint (now : Nat) (flowId : String) (M : FlowMemory S) (state : S)
    (pendingEvent : Option FlowEvent) (nextAction : Nat) : FlowMemory S :=
  let M := M.record ⟨flowId, R.flowKind, FlowState.step state, now⟩
  { M with storage :=
      M.storage.insert flowId (R.checkpoint now flowId state pendingEvent nextAction) }

def finalize (now : Nat) (flowId : String) (M : FlowMemory S) (state : S) (completed : Bool) :
    FlowMemory S :=
  if completed then ⟨M.storage.erase flowId, M.triage.erase flowId⟩
  else R.saveCheckpoint now flowId M state none 0

/-- The second half of `handle`: the incoming event. -/
def handleEvent (now : Nat) (flowId : String) (M : FlowMemory S) (state : S) (event : FlowEvent) :
    Option (FlowOutcome S) × FlowMemory S :=
  match R.tryApply state event with
  | none => (none, M)
  | some result =>
    if result.actions.isEmpty then
      (some ⟨result.state, [], result.completed⟩,
        R.finalize now flowId M result.state result.completed)
    else
      (some ⟨result.state, result.actions, false⟩,
        R.saveCheckpoint now flowId M state (some event) 0)

def handle (now : Nat) (flowId : String) (initialState : S) (M : FlowMemory S) (event : FlowEvent) :
    Except WorkflowError (Option (FlowOutcome S) × FlowMemory S) :=
  match M.storage.lookup flowId with
  | none =>
    if event.isResumed then .ok (none, M)
    else .ok (R.handleEvent now flowId M initialState event)
  | some saved =>
    match saved.pendingEvent with
    | none =>
      let M := M.record ⟨flowId, saved.flowKind, FlowState.step saved.state, saved.updatedAt⟩
      if event.isResumed then .ok (none, M)
      else .ok (R.handleEvent now flowId M saved.state event)
    | some pending =>
      match R.tryApply saved.state pending with
      | none => .error (.checkpointMismatch flowId (debug pending))
      | some result =>
        if result.actions.length ≤ saved.nextAction then
          let M := R.finalize now flowId M result.state result.completed
          if result.completed then .ok (some ⟨result.state, [], true⟩, M)
          else if event.isResumed then .ok (some ⟨result.state, [], false⟩, M)
          else .ok (R.handleEvent now flowId M result.state event)
        else .ok (some ⟨result.state, result.actions.drop saved.nextAction, false⟩, M)

def ack (now : Nat) (flowId : String) (M : FlowMemory S) (executed : Nat) :
    Except WorkflowError (FlowMemory S) :=
  match M.storage.lookup flowId with
  | none => .ok M
  | some saved =>
    match saved.pendingEvent with
    | none => .ok M
    | some pending =>
      match R.tryApply saved.state pending with
      | none => .error (.checkpointMismatch flowId (debug pending))
      | some result =>
        let next := min executed result.actions.length
        if next < result.actions.length then
          .ok (R.saveCheckpoint now flowId M saved.state (some pending) next)
        else .ok (R.finalize now flowId M result.state result.completed)

end FlowRunner

/-- The state a transition leaves; none once the flow is complete. -/
def TransitionResult.next {S : Type} (result : TransitionResult S) : Option S :=
  if result.completed then none else some result.state

/-- What a flow is for: an event takes it from one state to the next and asks for actions. A flow
that has not begun, or is complete, is in no state and starts from the initial one. -/
def FlowRunner.flow {S : Type} (R : FlowRunner S) (initialState : S) (current : Option S)
    (event : FlowEvent) : Option S × List Action :=
  if event.isResumed then (current, []) else
  match R.tryApply (current.getD initialState) event with
  | none => (current, [])
  | some result => (result.next, result.actions)

/-- The state and all actions after a list of events. -/
def FlowRunner.flowRun {S : Type} (R : FlowRunner S) (initialState : S) (events : List FlowEvent) :
    Option S × List Action :=
  events.foldl (fun run event =>
    ((R.flow initialState run.1 event).1, run.2 ++ (R.flow initialState run.1 event).2)) (none, [])

def Checkpoint.untimed {S : Type} (saved : Checkpoint S) : Checkpoint S :=
  { saved with updatedAt := 0 }

def FlowMemory.saved {S : Type} (M : FlowMemory S) (flowId : String) : Option (Checkpoint S) :=
  (M.storage.lookup flowId).map Checkpoint.untimed

def returned {S : Type} (outcome : Option (FlowOutcome S)) : List Action :=
  (outcome.map FlowOutcome.actions).getD []

namespace FlowRunner

section Flow

variable {S : Type} {R : FlowRunner S} {initialState : S}

lemma flow_of_tryApply {current : Option S} {event : FlowEvent} (input : event.isResumed = false)
    {result : TransitionResult S}
    (applied : R.tryApply (current.getD initialState) event = some result) :
    R.flow initialState current event = (result.next, result.actions) := by
  simp [flow, input, applied]

lemma tryApply_of_actions {current : Option S} {event : FlowEvent}
    (asks : (R.flow initialState current event).2 ≠ []) :
    ∃ result, R.tryApply (current.getD initialState) event = some result ∧
      R.flow initialState current event = (result.next, result.actions) := by
  unfold flow at asks ⊢
  grind

end Flow

variable {S : Type} [FlowState S] {R : FlowRunner S} {debug : FlowEvent → String} {flowId : String}
  {initialState : S} {M : FlowMemory S} {now : Nat}

def waiting (R : FlowRunner S) (flowId : String) (state : S) : Checkpoint S :=
  R.checkpoint 0 flowId state none 0

lemma lookup_of_saved {state : S} {pending : Option FlowEvent} {next : Nat}
    (known : M.saved flowId = some (R.checkpoint 0 flowId state pending next)) :
    ∃ time, M.storage.lookup flowId = some (R.checkpoint time flowId state pending next) := by
  obtain ⟨⟨_, _, _, _, _, _, time⟩, found, same⟩ := Option.map_eq_some_iff.mp known
  simp only [Checkpoint.untimed, checkpoint, Checkpoint.mk.injEq] at same
  exact ⟨time, by grind [checkpoint]⟩

@[simp] lemma saved_saveCheckpoint (state : S) (pending : Option FlowEvent) (next : Nat) :
    (R.saveCheckpoint now flowId M state pending next).saved flowId =
      some (R.checkpoint 0 flowId state pending next) := by
  simp [saveCheckpoint, FlowMemory.saved, checkpoint, Checkpoint.untimed]

@[simp] lemma saved_finalize (result : TransitionResult S) :
    (R.finalize now flowId M result.state result.completed).saved flowId =
      result.next.map (R.waiting flowId) := by
  cases closed : result.completed with
  | true => simp [finalize, FlowMemory.saved, TransitionResult.next, closed]
  | false => simp [finalize, TransitionResult.next, closed, waiting]

/-- The second half of `handle` does what the flow does, and writes down the event first if it asks
for actions. -/
theorem handleEvent_spec {current : Option S}
    (rest : M.saved flowId = current.map (R.waiting flowId)) {event : FlowEvent}
    (input : event.isResumed = false) :
    returned (R.handleEvent now flowId M (current.getD initialState) event).1 =
      (R.flow initialState current event).2 ∧
    (R.handleEvent now flowId M (current.getD initialState) event).2.saved flowId =
      if (R.flow initialState current event).2 = [] then
        (R.flow initialState current event).1.map (R.waiting flowId)
      else some (R.checkpoint 0 flowId (current.getD initialState) (some event) 0) := by
  cases applied : R.tryApply (current.getD initialState) event with
  | none => simp [handleEvent, flow, applied, returned, rest]
  | some result =>
    rw [flow_of_tryApply input applied]
    cases acts : result.actions with
    | nil => simp [handleEvent, applied, returned, acts]
    | cons action actions => simp [handleEvent, applied, returned, acts]

variable (debug) (now) (initialState)

/-- A waiting flow answers an event as its run does. -/
lemma handle_waiting {current : Option S} (rest : M.saved flowId = current.map (R.waiting flowId))
    (event : FlowEvent) : ∃ outcome M',
      R.handle debug now flowId initialState M event = .ok (outcome, M') ∧
      returned outcome = (R.flow initialState current event).2 ∧
      M'.saved flowId =
        if (R.flow initialState current event).2 = [] then
          (R.flow initialState current event).1.map (R.waiting flowId)
        else some (R.checkpoint 0 flowId (current.getD initialState) (some event) 0) := by
  obtain ⟨M₁, same, eq⟩ : ∃ M₁ : FlowMemory S, M₁.saved flowId = M.saved flowId ∧
      R.handle debug now flowId initialState M event =
        if event.isResumed then .ok (none, M₁)
        else .ok (R.handleEvent now flowId M₁ (current.getD initialState) event) := by
    cases current with
    | none =>
      have absent : M.storage.lookup flowId = none := by simpa [FlowMemory.saved] using rest
      exact ⟨M, rfl, by simp [handle, absent]⟩
    | some state =>
      obtain ⟨time, found⟩ := lookup_of_saved rest
      refine ⟨M.record ⟨flowId, R.flowKind, FlowState.step state, time⟩, rfl, ?_⟩
      simp [handle, found, checkpoint]
  cases input : event.isResumed with
  | true =>
    exact ⟨none, M₁, by simp [eq, input], by simp [returned, flow, input],
      by simp [flow, input, same, rest]⟩
  | false =>
    refine ⟨(R.handleEvent now flowId M₁ (current.getD initialState) event).1,
      (R.handleEvent now flowId M₁ (current.getD initialState) event).2, ?_,
      handleEvent_spec (same.trans rest) input⟩
    rw [eq, if_neg (by simp [input])]

/-- `handle` during a transition: whatever the event, the actions that were not acknowledged. -/
theorem handle_pending {state : S} {pending : FlowEvent} {next : Nat} {result : TransitionResult S}
    (midway : M.saved flowId = some (R.checkpoint 0 flowId state (some pending) next))
    (applied : R.tryApply state pending = some result) (ahead : next < result.actions.length)
    (event : FlowEvent) : R.handle debug now flowId initialState M event =
      .ok (some ⟨result.state, result.actions.drop next, false⟩, M) := by
  obtain ⟨time, found⟩ := lookup_of_saved midway
  simp [handle, found, checkpoint, applied, ahead]

/-- A count of all actions ends the transition, a lower one is saved. -/
lemma ack_pending {state : S} {pending : FlowEvent} {next : Nat} {result : TransitionResult S}
    (midway : M.saved flowId = some (R.checkpoint 0 flowId state (some pending) next))
    (applied : R.tryApply state pending = some result) {executed : Nat}
    (within : executed ≤ result.actions.length) : ∃ M',
      R.ack debug now flowId M executed = .ok M' ∧ M'.saved flowId =
        if executed = result.actions.length then result.next.map (R.waiting flowId)
        else some (R.checkpoint 0 flowId state (some pending) executed) := by
  obtain ⟨time, found⟩ := lookup_of_saved midway
  rcases Nat.lt_or_eq_of_le within with part | rfl
  · exact ⟨R.saveCheckpoint now flowId M state (some pending) executed,
      by simp [ack, found, checkpoint, applied, part, min_eq_left within], by simp [part.ne]⟩
  · exact ⟨R.finalize now flowId M result.state result.completed,
      by simp [ack, found, checkpoint, applied], by simp⟩

end FlowRunner

end GlassChain
