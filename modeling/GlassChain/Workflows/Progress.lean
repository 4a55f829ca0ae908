import GlassChain.Core.LedgerRun
import GlassChain.Library.Calls
import GlassChain.Workflows.Runner

/-!
# Progress of a pending transition

A caller may send any calls of `handle` and `ack` in any order. The count an `ack` carries is
counted from the start of the transition and is stored as it comes, so that a smaller one takes
progress back; `handle` returns the actions from the stored count on. A caller that counts within
the list it was last given is at odds with both.
-/

namespace GlassChain

open Library List

inductive FlowCall (S : Type) where
  | handle (now : Nat) (initialState : S) (event : FlowEvent)
  | ack (now executed : Nat)

def acknowledged {S : Type} (calls : List (FlowCall S)) : List Nat :=
  calls.filterMap fun k => match k with
    | .ack _ executed => some executed
    | .handle .. => none

@[simp]
lemma acknowledged_append {S : Type} (front back : List (FlowCall S)) :
    acknowledged (front ++ back) = acknowledged front ++ acknowledged back :=
  filterMap_append

@[simp]
lemma acknowledged_handle {S : Type} (now : Nat) (initialState : S) (event : FlowEvent) :
    acknowledged [FlowCall.handle now initialState event] = [] := rfl

@[simp]
lemma acknowledged_ack {S : Type} (now executed : Nat) :
    acknowledged [(.ack now executed : FlowCall S)] = [executed] := rfl

lemma le_getLastD_of_pairwise {a : Nat} {counts : List Nat}
    (sorted : (a :: counts).Pairwise (· ≤ ·)) : ∀ n ∈ a :: counts, n ≤ counts.getLastD a := by
  induction counts using List.reverseRecOn with
  | nil => simp
  | append_singleton counts last =>
    rw [← cons_append, pairwise_append] at sorted
    rw [← cons_append, forall_mem_append, getLastD_concat]
    exact ⟨fun n member => sorted.2.2 n member last (by simp), by simp⟩

def answered {S : Type} (answer : Except WorkflowError (Option (FlowOutcome S))) : List Action :=
  answer.toOption.elim [] returned

@[simp]
lemma answered_ok {S : Type} (outcome : Option (FlowOutcome S)) :
    answered (.ok outcome) = returned outcome := rfl

def FlowMemory.nextAction {S : Type} (M : FlowMemory S) (flowId : String) : Option Nat :=
  (M.saved flowId).map Checkpoint.nextAction

namespace FlowRunner

variable {S : Type} [FlowState S] (R : FlowRunner S) (debug : FlowEvent → String) (flowId : String)

/-- One call; a call that fails writes nothing. -/
def call (M : FlowMemory S) :
    FlowCall S → FlowMemory S × Except WorkflowError (Option (FlowOutcome S))
  | .handle now initialState event =>
    match R.handle debug now flowId initialState M event with
    | .ok (outcome, M') => (M', .ok outcome)
    | .error e => (M, .error e)
  | .ack now executed =>
    match R.ack debug now flowId M executed with
    | .ok M' => (M', .ok none)
    | .error e => (M, .error e)

def called (M : FlowMemory S) (calls : List (FlowCall S)) : FlowMemory S :=
  after (R.call debug flowId) M calls

@[simp]
lemma called_append (M : FlowMemory S) (front back : List (FlowCall S)) :
    R.called debug flowId M (front ++ back) =
      R.called debug flowId (R.called debug flowId M front) back :=
  after_append M front back

/-- The stored count never decreases along the calls. -/
def NeverDecreases (M : FlowMemory S) (calls : List (FlowCall S)) : Prop :=
  ∀ early late, early <+: late → late <+: calls → ∀ a b,
    (R.called debug flowId M early).nextAction flowId = some a →
    (R.called debug flowId M late).nextAction flowId = some b → a ≤ b

/-- The transition on `pending` from `state` is pending, with `next` actions acknowledged. -/
def Midway (M : FlowMemory S) (state : S) (pending : FlowEvent) (next : Nat) : Prop :=
  M.saved flowId = some (R.checkpoint 0 flowId state (some pending) next)

def Closed (M : FlowMemory S) (result : TransitionResult S) : Prop :=
  M.saved flowId = result.next.map (R.waiting flowId)

variable {R flowId} {M : FlowMemory S} {state : S} {pending : FlowEvent} {next : Nat}
  {result : TransitionResult S}

section

variable (midway : R.Midway flowId M state pending next)

include midway

lemma Midway.nextAction : M.nextAction flowId = some next := by
  rw [FlowMemory.nextAction, midway]
  rfl

lemma Midway.not_closed : ¬R.Closed flowId M result := by
  intro closed
  have events := congrArg (Option.map Checkpoint.pendingEvent) (midway.symm.trans closed)
  cases left : result.next <;> simp [left, waiting, checkpoint] at events

/-- A count below the number of actions is stored as it comes. -/
theorem Midway.call_ack (applied : R.tryApply state pending = some result) (now : Nat)
    {executed : Nat} (part : executed < result.actions.length) :
    R.Midway flowId (R.call debug flowId M (.ack now executed)).1 state pending executed := by
  obtain ⟨M', run, saved⟩ := ack_pending debug now midway applied part.le
  rw [if_neg part.ne] at saved
  simpa only [call, run, Midway] using saved

lemma Midway.call_ack_last (applied : R.tryApply state pending = some result) (now : Nat) :
    R.Closed flowId (R.call debug flowId M (.ack now result.actions.length)).1 result := by
  obtain ⟨M', run, saved⟩ := ack_pending debug now midway applied le_rfl
  rw [if_pos rfl] at saved
  simpa only [call, run, Closed] using saved

end

section

variable (midway : R.Midway flowId M state pending next)
  (applied : R.tryApply state pending = some result) (ahead : next < result.actions.length)

include midway applied ahead

/-- Midway, any event gets the open actions again. -/
lemma Midway.call_handle (now : Nat) (initialState : S) (event : FlowEvent) :
    R.call debug flowId M (.handle now initialState event) =
      (M, .ok (some ⟨result.state, result.actions.drop next, false⟩)) := by
  simp only [call, handle_pending debug initialState now midway applied ahead]

lemma Midway.called {calls : List (FlowCall S)}
    (part : ∀ n ∈ acknowledged calls, n < result.actions.length) :
    R.Midway flowId (R.called debug flowId M calls) state pending
      ((acknowledged calls).getLastD next) := by
  induction calls using List.reverseRecOn with
  | nil => exact midway
  | append_singleton calls k ih =>
    rw [acknowledged_append, forall_mem_append] at part
    have before := ih part.1
    rw [called_append]
    cases k with
    | ack now executed =>
      rw [acknowledged_append, acknowledged_ack, getLastD_concat]
      exact before.call_ack debug applied now (part.2 executed (by simp))
    | handle now initialState event =>
      have short : ∀ n ∈ next :: acknowledged calls, n < result.actions.length :=
        forall_mem_cons.mpr ⟨ahead, part.1⟩
      rw [acknowledged_append, acknowledged_handle, append_nil]
      have same := congrArg Prod.fst
        (before.call_handle debug applied (short _ getLastD_mem_cons) now initialState event)
      exact (congrArg (FlowMemory.saved · flowId) same).trans before

/-- The stored count never decreases exactly when the counts of the acknowledgements do not. -/
theorem Midway.neverDecreases_iff {calls : List (FlowCall S)}
    (part : ∀ n ∈ acknowledged calls, n < result.actions.length) :
    R.NeverDecreases debug flowId M calls ↔ (next :: acknowledged calls).Pairwise (· ≤ ·) := by
  have stored {front : List (FlowCall S)} (sub : front <+: calls) :
      (R.called debug flowId M front).nextAction flowId =
        some ((acknowledged front).getLastD next) := by
    refine (midway.called debug applied ahead fun n member => part n ?_).nextAction
    exact (sub.filterMap _).subset member
  constructor
  · intro kept
    suffices sorted : ∀ front, front <+: calls → (next :: acknowledged front).Pairwise (· ≤ ·) from
      sorted calls prefix_rfl
    intro front sub
    induction front using List.reverseRecOn with
    | nil => simp [acknowledged]
    | append_singleton front k ih =>
      have sub' : front <+: calls := (prefix_append _ _).trans sub
      have before := ih sub'
      cases k with
      | handle now initialState event => simpa using before
      | ack now executed =>
        have grows := kept front _ (prefix_append _ _) sub _ _ (stored sub') (stored sub)
        rw [acknowledged_append, acknowledged_ack, getLastD_concat] at grows
        rw [acknowledged_append, ← cons_append, pairwise_append]
        refine ⟨before, pairwise_singleton _ _, fun n member m last => ?_⟩
        obtain rfl := mem_singleton.mp last
        exact (le_getLastD_of_pairwise before n member).trans grows
  · rintro sorted early late sub sub' a b first second
    obtain rfl := Option.some.inj ((stored (sub.trans sub')).symm.trans first)
    obtain rfl := Option.some.inj ((stored sub').symm.trans second)
    have sorted' : (next :: acknowledged late).Pairwise (· ≤ ·) :=
      sorted.sublist ((sub'.filterMap _).sublist.cons_cons next)
    refine le_getLastD_of_pairwise sorted' _ ?_
    exact cons_subset_cons next (sub.filterMap _).subset getLastD_mem_cons

end

end FlowRunner

/-- A caller asks for the actions, executes some and acknowledges. -/
structure FlowRound (S : Type) where
  now : Nat
  initialState : S
  event : FlowEvent
  count : Nat

namespace FlowRunner

variable {S : Type} [FlowState S] (R : FlowRunner S) (debug : FlowEvent → String) (flowId : String)

def round (M : FlowMemory S) (r : FlowRound S) : FlowMemory S × List Action :=
  let handled := R.call debug flowId M (.handle r.now r.initialState r.event)
  ((R.call debug flowId handled.1 (.ack r.now r.count)).1, answered handled.2)

def CountsOffered (M : FlowMemory S) (r : FlowRound S) : Prop :=
  0 < r.count ∧ r.count ≤ (R.round debug flowId M r).2.length

/-- The count goes from the start of a transition with `total` actions, of which some were executed
in this round. -/
def CountsAll (total : Nat) (M : FlowMemory S) (r : FlowRound S) : Prop :=
  ∃ executed, 0 < executed ∧ executed ≤ (R.round debug flowId M r).2.length ∧
    r.count + (R.round debug flowId M r).2.length = total + executed

variable {R flowId} {M : FlowMemory S} {state : S} {pending : FlowEvent} {next : Nat}
  {result : TransitionResult S}

section

variable (midway : R.Midway flowId M state pending next)
  (applied : R.tryApply state pending = some result) (ahead : next < result.actions.length)

include midway applied ahead

lemma Midway.round (r : FlowRound S) :
    (R.round debug flowId M r).2 = result.actions.drop next ∧
      (r.count < result.actions.length →
        R.Midway flowId (R.round debug flowId M r).1 state pending r.count) ∧
      (r.count = result.actions.length → R.Closed flowId (R.round debug flowId M r).1 result) := by
  have handled := midway.call_handle debug applied ahead r.now r.initialState r.event
  simp only [FlowRunner.round, handled]
  refine ⟨rfl, midway.call_ack debug applied r.now, ?_⟩
  rintro whole
  rw [whole]
  exact midway.call_ack_last debug applied r.now

/-- With progress stored, a caller that counts what it was offered stays midway for ever. -/
theorem Midway.rounds_offered (begun : 0 < next) {rounds : List (FlowRound S)}
    (counts : Along (R.round debug flowId) (R.CountsOffered debug flowId) M rounds) :
    ∃ n < result.actions.length,
      R.Midway flowId (after (R.round debug flowId) M rounds) state pending n := by
  induction rounds generalizing M next with
  | nil => exact ⟨next, ahead, midway⟩
  | cons r rest ih =>
    obtain ⟨offered, part, -⟩ := midway.round debug applied ahead r
    obtain ⟨⟨some, within⟩, others⟩ := along_cons.mp counts
    rw [offered, length_drop] at within
    have short : r.count < result.actions.length := by omega
    exact ih (part short) short some others

/-- A caller that counts what it was offered has to finish at once. -/
lemma Midway.closes_offered_iff {r : FlowRound S} {rest : List (FlowRound S)}
    (counts : Along (R.round debug flowId) (R.CountsOffered debug flowId) M (r :: rest)) :
    (∃ front, front <+: r :: rest ∧
      R.Closed flowId (after (R.round debug flowId) M front) result) ↔
      next = 0 ∧ r.count = result.actions.length := by
  obtain ⟨offered, part, whole⟩ := midway.round debug applied ahead r
  obtain ⟨⟨some, within⟩, others⟩ := along_cons.mp counts
  rw [offered, length_drop] at within
  constructor
  · rintro ⟨front, sub, closed⟩
    by_contra open_
    have short : r.count < result.actions.length := by omega
    cases front with
    | nil => exact midway.not_closed closed
    | cons r' front =>
      obtain ⟨rfl, inner⟩ := cons_prefix_cons.mp sub
      obtain ⟨n, -, still⟩ := (part short).rounds_offered debug applied short some
        (others.of_prefix inner)
      exact still.not_closed closed
  · rintro ⟨-, all⟩
    exact ⟨[r], cons_prefix_cons.mpr ⟨rfl, nil_prefix⟩, whole all⟩

/-- A caller that counts from the start closes the transition. -/
theorem Midway.closes_all {rounds : List (FlowRound S)}
    (counts : Along (R.round debug flowId) (R.CountsAll debug flowId result.actions.length) M rounds)
    (enough : result.actions.length - next ≤ rounds.length) :
    ∃ front, front <+: rounds ∧ R.Closed flowId (after (R.round debug flowId) M front) result := by
  induction rounds generalizing M next with
  | nil =>
    rw [length_nil] at enough
    omega
  | cons r rest ih =>
    obtain ⟨offered, part, whole⟩ := midway.round debug applied ahead r
    obtain ⟨⟨executed, some, within, counted⟩, others⟩ := along_cons.mp counts
    rw [offered, length_drop] at within counted
    rw [length_cons] at enough
    rcases Nat.lt_or_ge r.count result.actions.length with short | all
    · obtain ⟨front, sub, closed⟩ := ih (part short) short others (by omega)
      exact ⟨r :: front, cons_prefix_cons.mpr ⟨rfl, sub⟩, closed⟩
    · exact ⟨[r], cons_prefix_cons.mpr ⟨rfl, nil_prefix⟩, whole (by omega)⟩

end

/-- While a transition is pending the stored count never decreases exactly when the acknowledged
counts do not, and then no acknowledged action is returned again. A caller that acknowledges how
many actions it executed of the list last returned closes the transition only at once and as a
whole; one that counts from the start closes it after at most as many rounds as there are actions
left. -/
theorem progress_monotone_iff (debug : FlowEvent → String)
    (midway : R.Midway flowId M state pending next)
    (applied : R.tryApply state pending = some result) (ahead : next < result.actions.length) :
    (∀ calls : List (FlowCall S), (∀ n ∈ acknowledged calls, n < result.actions.length) →
      (R.NeverDecreases debug flowId M calls ↔ (next :: acknowledged calls).Pairwise (· ≤ ·)) ∧
      (R.NeverDecreases debug flowId M calls → ∀ front now initialState event,
        front ++ [.handle now initialState event] <+: calls → ∃ k,
          (R.call debug flowId (R.called debug flowId M front) (.handle now initialState event)).2 =
            .ok (some ⟨result.state, result.actions.drop k, false⟩) ∧
          ∀ n ∈ next :: acknowledged front, n ≤ k)) ∧
    (∀ r rest, Along (R.round debug flowId) (R.CountsOffered debug flowId) M (r :: rest) →
      ((∃ front, front <+: r :: rest ∧
        R.Closed flowId (after (R.round debug flowId) M front) result) ↔
          next = 0 ∧ r.count = result.actions.length)) ∧
    ∀ rounds, Along (R.round debug flowId) (R.CountsAll debug flowId result.actions.length) M rounds →
      result.actions.length - next ≤ rounds.length →
      ∃ front, front <+: rounds ∧
        R.Closed flowId (after (R.round debug flowId) M front) result := by
  refine ⟨fun calls part => ?_, fun r rest => midway.closes_offered_iff debug applied ahead,
    fun rounds => midway.closes_all debug applied ahead⟩
  have sorted_iff := midway.neverDecreases_iff debug applied ahead part
  refine ⟨sorted_iff, fun kept front now initialState event sub => ?_⟩
  have before : acknowledged front <+: acknowledged calls :=
    ((prefix_append _ _).trans sub).filterMap _
  have short : ∀ n ∈ next :: acknowledged front, n < result.actions.length :=
    forall_mem_cons.mpr ⟨ahead, fun n member => part n (before.subset member)⟩
  have now_midway := midway.called debug applied ahead (forall_mem_cons.mp short).2
  refine ⟨(acknowledged front).getLastD next, ?_, le_getLastD_of_pairwise ?_⟩
  · rw [now_midway.call_handle debug applied (short _ getLastD_mem_cons)]
  · exact (sorted_iff.mp kept).sublist (before.sublist.cons_cons next)

end FlowRunner

/-! A flow with one transition, which emits three stock movements. -/

instance : FlowState Unit := ⟨fun _ => "open"⟩

def restockResult : TransitionResult Unit :=
  ⟨(), [.emitTransaction (stockTx "a"), .emitTransaction (stockTx "b"),
    .emitTransaction (stockTx "c")], true⟩

def restockFlow : FlowRunner Unit :=
  ⟨"restock", [⟨"Restock", fun _ event => !event.isResumed, fun _ _ => restockResult⟩]⟩

def restockPending : FlowMemory Unit :=
  restockFlow.called (fun _ => "") "restock-1" ⟨∅, ∅⟩ [.handle 0 () (.woken "restock")]

lemma restockPending_midway :
    restockFlow.Midway "restock-1" restockPending () (.woken "restock") 0 :=
  FlowRunner.saved_saveCheckpoint () (some (.woken "restock")) 0

/-- Counts one and two, and a caller that counts from the start. -/
theorem progress_monotone_sample :
    restockFlow.NeverDecreases (fun _ => "") "restock-1" restockPending
      [.ack 0 1, .handle 0 () (.resumed "crash"), .ack 0 2] := by
  have applied : restockFlow.tryApply () (.woken "restock") = some restockResult := rfl
  obtain ⟨calls, -, -⟩ :=
    FlowRunner.progress_monotone_iff (fun _ => "") restockPending_midway applied (by decide)
  refine (calls [.ack 0 1, .handle 0 () (.resumed "crash"), .ack 0 2] ?_).1.mpr ?_
  · decide
  · decide

/-- A count of one after a count of two takes progress back, and the second action is returned once
more; and a caller that executes one action of three, then as many as it likes of those it is
offered, never closes the transition. -/
theorem progress_taken_back :
    let called := restockFlow.called (fun _ => "") "restock-1" restockPending
    let round := restockFlow.round (fun _ => "") "restock-1"
    (called [.ack 0 2]).nextAction "restock-1" = some 2 ∧
    (called [.ack 0 2, .ack 0 1]).nextAction "restock-1" = some 1 ∧
    (restockFlow.call (fun _ => "") "restock-1" (called [.ack 0 2, .ack 0 1])
      (.handle 0 () (.resumed "crash"))).2 =
        .ok (some ⟨(), [.emitTransaction (stockTx "b"), .emitTransaction (stockTx "c")], false⟩) ∧
    ∀ rest, Along round (restockFlow.CountsOffered (fun _ => "") "restock-1") restockPending
        (⟨0, (), .resumed "crash", 1⟩ :: rest) →
      ∃ n, (after round restockPending (⟨0, (), .resumed "crash", 1⟩ :: rest)).nextAction "restock-1" =
        some n ∧ n < 3 := by
  intro called round
  have applied : restockFlow.tryApply () (.woken "restock") = some restockResult := rfl
  have twice := restockPending_midway.call_ack (fun _ => "") applied 0
    (show 2 < restockResult.actions.length by decide)
  have back := twice.call_ack (fun _ => "") applied 0 (show 1 < restockResult.actions.length by decide)
  refine ⟨twice.nextAction, back.nextAction, ?_, fun rest counts => ?_⟩
  · exact congrArg Prod.snd (back.call_handle (fun _ => "") applied (by decide) 0 () _)
  · obtain ⟨-, part, -⟩ := restockPending_midway.round (fun _ => "") applied (by decide)
      ⟨0, (), .resumed "crash", 1⟩
    obtain ⟨n, short, still⟩ := (part (by decide)).rounds_offered (fun _ => "") applied (by decide)
      (by decide) (along_cons.mp counts).2
    exact ⟨n, still.nextAction, short⟩

end GlassChain
