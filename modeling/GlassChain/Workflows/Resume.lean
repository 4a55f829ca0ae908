import GlassChain.Workflows.Runner

/-!
# Callers that crash and resume

A caller delivers a list of events to a flow, executes what `handle` returns and acknowledges it. A
crash loses what was returned; `Event::Resumed` returns it again from the last acknowledged action
on. The actions of the run without crashes are then executed at least once each, for the first time
in the order of that run, and the checkpoint that is left is the same.

The log of a run notes for each execution the place of the action among all that were ever returned,
which the caller itself does not know.
-/

namespace GlassChain

open Library Option List FlowRunner

/-- A transition in progress: how many actions it asks for, how many of them were acknowledged, and
how many were executed, before a crash or after. -/
structure Turn where
  total : Nat
  acked : Nat
  executed : Nat

structure Caller (S : Type) where
  memory : FlowMemory S
  /-- How many events were delivered. -/
  delivered : Nat
  /-- How many actions the transitions before this one asked for. -/
  offset : Nat
  turn : Option Turn
  /-- What `handle` returned and is still to be executed. -/
  batch : List (Action × Nat)
  log : List (Action × Nat)
  failure : Option WorkflowError

inductive CallerStep where
  | deliver (now : Nat)
  | execute
  | ack (executed now : Nat)
  | crash (triage : AList fun _ : String => TriageEntry)
  | resume (reason : String) (now : Nat)

variable {S : Type} [FlowState S] (R : FlowRunner S) (debug : FlowEvent → String) (flowId : String)
  (initialState : S) (events : List FlowEvent)

namespace Caller

def place (c : Caller S) : Nat := c.offset + (c.turn.map Turn.acked).getD 0

def deliver (c : Caller S) (now : Nat) (event : FlowEvent) : Caller S :=
  match R.handle debug now flowId initialState c.memory event with
  | .error e => { c with failure := some e }
  | .ok (outcome, memory) =>
    { c with
      memory := memory
      delivered := c.delivered + 1
      turn := if (returned outcome).isEmpty then none else some ⟨(returned outcome).length, 0, 0⟩
      batch := (returned outcome).zipIdx c.offset }

def execute (c : Caller S) : Caller S :=
  match c.batch with
  | [] => c
  | x :: rest =>
    { c with
      turn := c.turn.map fun t => { t with executed := max t.executed (x.2 + 1 - c.offset) }
      batch := rest
      log := c.log ++ [x] }

def ack (c : Caller S) (executed now : Nat) : Caller S :=
  match R.ack debug now flowId c.memory executed, c.turn with
  | .error e, _ => { c with failure := some e }
  | .ok memory, none => { c with memory := memory }
  | .ok memory, some t =>
    if executed = t.total then
      { c with memory := memory, offset := c.offset + t.total, turn := none }
    else { c with memory := memory, turn := some { t with acked := executed } }

def crash (c : Caller S) (triage : AList fun _ : String => TriageEntry) : Caller S :=
  { c with memory := { c.memory with triage := triage }, batch := [] }

def resume (c : Caller S) (reason : String) (now : Nat) : Caller S :=
  match R.handle debug now flowId initialState c.memory (.resumed reason) with
  | .error e => { c with failure := some e }
  | .ok (outcome, memory) =>
    { c with memory := memory, batch := (returned outcome).zipIdx c.place }

/-- What a caller may do. The next event is delivered when all actions are acknowledged; counts do
not decrease and stay within what was executed. -/
inductive Next : Caller S → CallerStep → Caller S → Prop
  | deliver {c : Caller S} {now : Nat} {event : FlowEvent} (idle : c.turn = none)
      (sent : events[c.delivered]? = some event) :
      Next c (.deliver now) (c.deliver R debug flowId initialState now event)
  | execute {c : Caller S} : Next c .execute c.execute
  | ack {c : Caller S} {t : Turn} {executed now : Nat} (busy : c.turn = some t)
      (above : t.acked ≤ executed) (below : executed ≤ t.executed) :
      Next c (.ack executed now) (c.ack R debug flowId executed now)
  | crash {c : Caller S} {triage : AList fun _ : String => TriageEntry} :
      Next c (.crash triage) (c.crash triage)
  | resume {c : Caller S} {reason : String} {now : Nat} :
      Next c (.resume reason now) (c.resume R debug flowId initialState reason now)

def start (M : FlowMemory S) : Caller S := ⟨M, 0, 0, none, [], [], none⟩

end Caller

/-- A run without crashes: each event is handled, its actions are executed and acknowledged. -/
def FlowRunner.deliver (run : FlowMemory S × List Action) (event : FlowEvent × Nat) :
    Except WorkflowError (FlowMemory S × List Action) := do
  let (outcome, M) ← R.handle debug event.2 flowId initialState run.1 event.1
  if (returned outcome).isEmpty then return (M, run.2)
  else
    let M ← R.ack debug event.2 flowId M (returned outcome).length
    return (M, run.2 ++ returned outcome)

/-- The run on events that come with their times: what is left, and the actions in order. -/
def FlowRunner.crashFree (M : FlowMemory S) (events : List (FlowEvent × Nat)) :
    Except WorkflowError (FlowMemory S × List Action) :=
  events.foldlM (R.deliver debug flowId initialState) (M, [])

def FlowRunner.plan (delivered : Nat) : List Action :=
  (R.flowRun initialState (events.take delivered)).2

namespace Caller

def reached (c : Caller S) : Nat := c.offset + (c.turn.map Turn.executed).getD 0

/-- Between two transitions. -/
structure Idle (delivered offset : Nat) (saved : Option (Checkpoint S)) : Prop where
  closed : offset = (R.plan initialState events delivered).length
  waiting : saved = (R.flowRun initialState (events.take delivered)).1.map (R.waiting flowId)

/-- Within the transition of `event`. -/
structure Busy (delivered offset : Nat) (saved : Option (Checkpoint S)) (acked total : Nat)
    (past : List FlowEvent) (event : FlowEvent) (result : TransitionResult S) : Prop where
  last : events.take delivered = past ++ [event]
  applied : R.tryApply ((R.flowRun initialState past).1.getD initialState) event = some result
  flow : R.flow initialState (R.flowRun initialState past).1 event = (result.next, result.actions)
  opened : offset = (R.flowRun initialState past).2.length
  asked : total = result.actions.length
  ahead : acked < total
  pending : saved = some (R.checkpoint 0 flowId
    ((R.flowRun initialState past).1.getD initialState) (some event) acked)

structure Sound (c : Caller S) : Prop where
  intact : c.failure = none
  runs : RunsThrough (R.plan initialState events c.delivered) c.reached c.log
  batch : c.batch ≠ [] →
    ∃ p ≤ c.reached, c.batch = (R.plan initialState events c.delivered).zipIdx.drop p
  idle : c.turn = none →
    Idle R flowId initialState events c.delivered c.offset (c.memory.saved flowId)
  busy : ∀ t, c.turn = some t → t.acked ≤ t.executed ∧ ∃ past event result,
    Busy R flowId initialState events c.delivered c.offset (c.memory.saved flowId) t.acked t.total
      past event result

end Caller

omit [FlowState S] in
lemma FlowRunner.flowRun_concat (past : List FlowEvent) (event : FlowEvent) :
    R.flowRun initialState (past ++ [event]) =
      ((R.flow initialState (R.flowRun initialState past).1 event).1,
        (R.flowRun initialState past).2 ++
          (R.flow initialState (R.flowRun initialState past).1 event).2) := by
  simp [flowRun]

namespace Caller

variable {R debug flowId initialState events}

section Busy

variable {delivered offset acked total : Nat} {saved : Option (Checkpoint S)}
  {past : List FlowEvent} {event : FlowEvent} {result : TransitionResult S}

lemma Busy.plan_eq
    (b : Busy R flowId initialState events delivered offset saved acked total past event result) :
    R.plan initialState events delivered = (R.flowRun initialState past).2 ++ result.actions := by
  rw [plan, b.last, R.flowRun_concat, b.flow]

lemma Busy.length_plan
    (b : Busy R flowId initialState events delivered offset saved acked total past event result) :
    (R.plan initialState events delivered).length = offset + total := by
  rw [b.plan_eq, length_append, b.opened, b.asked]

end Busy

variable {c : Caller S}

namespace Sound

lemma start {M : FlowMemory S} (fresh : M.storage.lookup flowId = none) :
    (Caller.start M).Sound R flowId initialState events where
  intact := rfl
  runs := .nil
  batch := nofun
  idle _ := ⟨rfl, by simp [Caller.start, FlowMemory.saved, fresh, flowRun]⟩
  busy := nofun

lemma execute (h : c.Sound R flowId initialState events) :
    c.execute.Sound R flowId initialState events := by
  unfold Caller.execute
  split
  · exact h
  · rename_i x rest held
    obtain ⟨p, reached, left⟩ := h.batch (by simp [held])
    obtain ⟨runs, place, inside, remaining⟩ := h.runs.execute reached (left.symm.trans held)
    -- the place executed is the furthest of the transition, or lies below it
    have further : (Caller.mk c.memory c.delivered c.offset
        (c.turn.map fun t => { t with executed := max t.executed (x.2 + 1 - c.offset) }) rest
        (c.log ++ [x]) c.failure).reached = max c.reached (p + 1) := by
      cases free : c.turn with
      | none =>
        have := (h.idle free).closed
        simp only [Caller.reached, free, map_none, getD_none]
        omega
      | some t =>
        simp only [Caller.reached, free, map_some, getD_some]
        omega
    exact {
      intact := h.intact
      runs := further ▸ runs
      batch := fun _ => ⟨p + 1, further ▸ le_max_right _ _, remaining.symm⟩
      idle := fun free => h.idle (by simpa using free)
      busy := by
        intro t taken
        obtain ⟨t, held, rfl⟩ := map_eq_some_iff.mp taken
        obtain ⟨counted, progress⟩ := h.busy t held
        exact ⟨le_max_of_le_left counted, progress⟩ }

lemma crash (h : c.Sound R flowId initialState events)
    (triage : AList fun _ : String => TriageEntry) :
    (c.crash triage).Sound R flowId initialState events where
  intact := h.intact
  runs := h.runs
  batch := nofun
  idle := h.idle
  busy := h.busy

lemma resume (h : c.Sound R flowId initialState events) (reason : String) (now : Nat) :
    (c.resume R debug flowId initialState reason now).Sound R flowId initialState events := by
  cases free : c.turn with
  | none =>
    obtain ⟨outcome, M, handled, nothing, saved⟩ := handle_waiting debug
      initialState now (h.idle free).waiting (.resumed reason)
    have ignored : R.flow initialState
        (R.flowRun initialState (events.take c.delivered)).1 (.resumed reason) =
          ((R.flowRun initialState (events.take c.delivered)).1, []) := rfl
    rw [ignored] at nothing saved
    simp only [Caller.resume, handled, nothing, zipIdx_nil]
    exact {
      intact := h.intact
      runs := h.runs
      batch := nofun
      idle := fun _ => ⟨(h.idle free).closed, saved⟩
      busy := fun t taken => absurd taken (by simp [free]) }
  | some t =>
    obtain ⟨counted, past, event, result, b⟩ := h.busy t free
    have handled := handle_pending debug initialState now b.pending b.applied
      (b.asked ▸ b.ahead) (.resumed reason)
    simp only [Caller.resume, handled, returned, map_some, getD_some]
    exact {
      intact := h.intact
      runs := h.runs
      batch := by
        refine fun _ => ⟨c.place, ?_, ?_⟩
        · simp only [Caller.place, Caller.reached, free, map_some, getD_some]
          omega
        · simp only [Caller.place, free, map_some, getD_some]
          rw [b.plan_eq, b.opened, drop_zipIdx_append]
      idle := h.idle
      busy := h.busy }

lemma deliver (h : c.Sound R flowId initialState events) (free : c.turn = none)
    {event : FlowEvent} (sent : events[c.delivered]? = some event) (now : Nat) :
    (c.deliver R debug flowId initialState now event).Sound R flowId initialState events := by
  obtain ⟨outcome, M, handled, asked, saved⟩ := handle_waiting debug
    initialState now (h.idle free).waiting event
  have closed := (h.idle free).closed
  have last : events.take (c.delivered + 1) = events.take c.delivered ++ [event] := by
    rw [take_add_one, sent]
    rfl
  have longer : R.plan initialState events (c.delivered + 1) =
      R.plan initialState events c.delivered ++ returned outcome := by
    rw [plan, last, R.flowRun_concat, asked]
    rfl
  have all : c.reached = c.offset := by simp [Caller.reached, free]
  simp only [Caller.deliver, handled]
  have runs := all ▸ h.runs.append (returned outcome)
  cases acts : returned outcome with
  | nil =>
    rw [acts] at longer asked runs
    rw [← asked, if_pos rfl] at saved
    exact {
      intact := h.intact
      runs := by simpa [longer, Caller.reached] using runs
      batch := nofun
      idle := fun _ =>
        ⟨by simpa [longer] using closed, by simpa [last, R.flowRun_concat] using saved⟩
      busy := nofun }
  | cons action actions =>
    rw [acts] at longer asked runs
    rw [← asked, if_neg (by simp)] at saved
    obtain ⟨result, applied, flow⟩ := tryApply_of_actions
      (show (R.flow initialState _ event).2 ≠ [] by rw [← asked]; simp)
    rw [flow] at asked
    exact {
      intact := h.intact
      runs := by simpa [longer, Caller.reached] using runs
      batch := by
        refine fun _ => ⟨c.offset, by simp [Caller.reached], ?_⟩
        rw [longer, closed]
        exact (drop_zipIdx_append _ _ 0).symm
      idle := nofun
      busy := by
        rintro t ⟨⟩
        exact ⟨le_rfl, _, event, result, last, applied, flow, closed, congrArg List.length asked,
          by simp, saved⟩ }

lemma ack (h : c.Sound R flowId initialState events) {t : Turn} {executed : Nat}
    (taken : c.turn = some t) (below : executed ≤ t.executed) (now : Nat) :
    (c.ack R debug flowId executed now).Sound R flowId initialState events := by
  obtain ⟨counted, past, event, result, b⟩ := h.busy t taken
  have furthest : c.reached = c.offset + t.executed := by simp [Caller.reached, taken]
  have within := h.runs.within
  rw [furthest, b.length_plan] at within
  obtain ⟨M, acked, saved⟩ := ack_pending debug now b.pending b.applied
    (show executed ≤ _ by rw [← b.asked]; omega)
  simp only [Caller.ack, acked, taken]
  split
  · rename_i finished
    have whole : c.reached = c.offset + t.total := by omega
    rw [← b.asked, if_pos finished] at saved
    exact {
      intact := h.intact
      runs := by simpa [Caller.reached, whole] using whole ▸ h.runs
      batch := fun held => by simpa [Caller.reached, whole] using whole ▸ h.batch held
      idle := fun _ => ⟨b.length_plan.symm, by
        rw [saved, b.last, R.flowRun_concat, b.flow]⟩
      busy := nofun }
  · rename_i partly
    rw [← b.asked, if_neg partly] at saved
    exact {
      intact := h.intact
      runs := by simpa [Caller.reached] using furthest ▸ h.runs
      batch := fun held => by simpa [Caller.reached] using furthest ▸ h.batch held
      idle := nofun
      busy := by
        rintro _ ⟨⟩
        exact ⟨below, past, event, result, b.last, b.applied, b.flow, b.opened, b.asked, by
          show executed < t.total
          omega, saved⟩ }

/-- Every step keeps the invariant, crashes included. -/
lemma next (h : c.Sound R flowId initialState events) {step : CallerStep} {c' : Caller S}
    (taken : Next R debug flowId initialState events c step c') :
    c'.Sound R flowId initialState events := by
  cases taken with
  | deliver idle sent => exact h.deliver idle sent _
  | execute => exact h.execute
  | ack busy above below => exact h.ack busy below _
  | crash => exact h.crash _
  | resume => exact h.resume _ _

end Sound

end Caller

variable {R flowId events}

lemma FlowRunner.deliver_spec {M : FlowMemory S} {current : Option S}
    (rest : M.saved flowId = current.map (R.waiting flowId)) (actions : List Action)
    (event : FlowEvent × Nat) : ∃ M', R.deliver debug flowId initialState (M, actions) event =
      .ok (M', actions ++ (R.flow initialState current event.1).2) ∧
      M'.saved flowId = (R.flow initialState current event.1).1.map (R.waiting flowId) := by
  obtain ⟨outcome, M₁, handled, asked, saved⟩ :=
    handle_waiting debug initialState event.2 rest event.1
  by_cases nothing : (R.flow initialState current event.1).2 = []
  · rw [if_pos nothing] at saved
    refine ⟨M₁, ?_, saved⟩
    simp [deliver, handled, asked, nothing, bind, Except.bind, pure, Except.pure]
  · rw [if_neg nothing] at saved
    obtain ⟨result, applied, flow⟩ := tryApply_of_actions nothing
    obtain ⟨M₂, acked, closed⟩ := ack_pending debug event.2 saved applied le_rfl
    rw [if_pos rfl] at closed
    refine ⟨M₂, ?_, by rw [closed, flow]⟩
    rw [flow] at asked nothing ⊢
    simp [deliver, handled, asked, nothing, acked, bind, Except.bind, pure, Except.pure]

/-- Without a crash the caller gets the run's actions. -/
lemma FlowRunner.crashFree_spec {M : FlowMemory S} (fresh : M.storage.lookup flowId = none)
    (events : List (FlowEvent × Nat)) : ∃ M', R.crashFree debug flowId initialState M events =
      .ok (M', (R.flowRun initialState (events.map Prod.fst)).2) ∧
      M'.saved flowId =
        (R.flowRun initialState (events.map Prod.fst)).1.map (R.waiting flowId) := by
  induction events using List.reverseRecOn with
  | nil => exact ⟨M, rfl, by simp [FlowMemory.saved, fresh, flowRun]⟩
  | append_singleton events event ih =>
    obtain ⟨M₁, run, rest⟩ := ih
    obtain ⟨M₂, last, saved⟩ := R.deliver_spec debug initialState rest
      (R.flowRun initialState (events.map Prod.fst)).2 event
    refine ⟨M₂, ?_, ?_⟩
    · unfold crashFree at run ⊢
      rw [foldlM_append, run, map_append, map_singleton, R.flowRun_concat]
      simp [last, bind, Except.bind, pure, Except.pure]
    · rw [map_append, map_singleton, R.flowRun_concat, saved]

omit [FlowState S] in
lemma FlowRunner.flowRun_append (past later : List FlowEvent) : ∃ more,
    (R.flowRun initialState (past ++ later)).2 = (R.flowRun initialState past).2 ++ more := by
  induction later using List.reverseRecOn with
  | nil => exact ⟨[], by simp⟩
  | append_singleton later event ih =>
    obtain ⟨more, eq⟩ := ih
    exact ⟨_, by rw [← append_assoc, R.flowRun_concat, eq, append_assoc]⟩

/-- Whatever crashes and resumptions there are, no call fails, and what is executed is what the run
without crashes executes, for the first time in its order; once all events are acknowledged,
everything was executed and the checkpoint is the same up to its time. -/
theorem FlowRunner.crash_resume_refines {M : FlowMemory S}
    (fresh : M.storage.lookup flowId = none) {timed : List (FlowEvent × Nat)}
    (same : timed.map Prod.fst = events) {c : Caller S}
    (run : Reaches (Caller.Next R debug flowId initialState events) anyStep (Caller.start M) c) :
    c.failure = none ∧ ∃ M' actions,
      R.crashFree debug flowId initialState M timed = .ok (M', actions) ∧
      (∀ x ∈ c.log, x ∈ actions.zipIdx) ∧ firsts c.log <+: actions.zipIdx ∧
      (c.delivered = events.length → c.turn = none →
        (∀ x ∈ actions.zipIdx, x ∈ c.log) ∧ firsts c.log = actions.zipIdx ∧
        c.memory.saved flowId = M'.saved flowId) := by
  have sound := run.invariant (I := fun c => c.Sound R flowId initialState events)
    (fun _ _ _ h _ taken => h.next taken) (.start fresh)
  obtain ⟨M', alone, saved⟩ := R.crashFree_spec debug initialState fresh timed
  rw [same] at alone saved
  obtain ⟨more, all⟩ := R.flowRun_append initialState (events.take c.delivered)
    (events.drop c.delivered)
  rw [take_append_drop] at all
  have whole := sound.runs.append more
  rw [plan, ← all] at whole
  refine ⟨sound.intact, M', _, alone, whole.genuine, whole.firsts_eq ▸ take_prefix _ _, ?_⟩
  intro finished free
  obtain ⟨closed, waiting⟩ := sound.idle free
  rw [plan, finished, take_length] at closed
  rw [finished, take_length] at waiting
  have complete : c.reached = (R.flowRun initialState events).2.length := by
    simp [Caller.reached, free, closed]
  rw [complete] at whole
  refine ⟨fun x => whole.mem_log, ?_, waiting.trans saved.symm⟩
  rw [whole.firsts_eq, take_of_length_le (by simp)]

inductive SampleFlow where
  | opened
  | emitted

instance : FlowState SampleFlow where
  step
    | .opened => "opened"
    | .emitted => "emitted"

def sampleRecord (id : String) : CanonicalRecord :=
  ⟨id, "lot", 1, none, 0, "org", [], none, [], []⟩

/-- Two actions on the first event, a last one on the second. -/
def sampleRunner : FlowRunner SampleFlow where
  flowKind := "sample"
  transitions := [
    { name := "Open"
      matchesPair := fun state _ => match state with
        | .opened => true
        | .emitted => false
      apply := fun _ _ =>
        ⟨.emitted, [.emitRecord (sampleRecord "a"), .emitRecord (sampleRecord "b")], false⟩ },
    { name := "Close"
      matchesPair := fun _ _ => true
      apply := fun state _ => ⟨state, [.emitRecord (sampleRecord "c")], true⟩ }]

abbrev SampleReaches : Caller SampleFlow → Prop :=
  Reaches (Caller.Next sampleRunner (fun _ => "") "f" .opened [.woken "go", .woken "stop"]) anyStep
    (Caller.start ⟨∅, ∅⟩)

/-- The caller crashes after it executed the first action, and again after the second, which it had
not acknowledged: both run twice. -/
theorem crash_resume_refines_twice :
    ∃ c, SampleReaches c ∧ c.log.map Prod.snd = [0, 0, 1, 1, 2] ∧ ∃ M' actions,
      sampleRunner.crashFree (fun _ => "") "f" .opened ⟨∅, ∅⟩
        [(.woken "go", 1), (.woken "stop", 6)] = .ok (M', actions) ∧
      firsts c.log = actions.zipIdx ∧ c.memory.saved "f" = M'.saved "f" := by
  have start : SampleReaches (Caller.start ⟨∅, ∅⟩) := .refl _
  have first := (start.tail (.deliver 1) trivial (.deliver rfl rfl)).tail .execute trivial .execute
  have lost := (first.tail (.crash ∅) trivial .crash).tail (.resume "restart" 2) trivial .resume
  have half := (lost.tail .execute trivial .execute).tail (.ack 1 3) trivial
    (.ack rfl (by decide) (by decide))
  have again := ((half.tail .execute trivial .execute).tail (.crash ∅) trivial .crash).tail
    (.resume "restart" 4) trivial .resume
  have closed := (again.tail .execute trivial .execute).tail (.ack 2 5) trivial
    (.ack rfl (by decide) (by decide))
  have done := ((closed.tail (.deliver 6) trivial (.deliver rfl rfl)).tail .execute trivial
    .execute).tail (.ack 1 7) trivial (.ack rfl (by decide) (by decide))
  obtain ⟨-, M', actions, alone, -, -, finish⟩ :=
    crash_resume_refines (M := ⟨∅, ∅⟩) (fun _ => "") SampleFlow.opened rfl
      (show [(FlowEvent.woken "go", 1), (.woken "stop", 6)].map Prod.fst = _ from rfl) done
  obtain ⟨-, order, saved⟩ := finish rfl rfl
  exact ⟨_, done, rfl, M', actions, alone, order, saved⟩

end GlassChain
