import GlassChain.Workflows.Progress
import GlassChain.Workflows.PurchaseFlow

/-!
# Completed flows

The last transition of a flow deletes its checkpoint, and what is left is what a flow that never
began has. A later event is therefore tried on the initial state: if the table takes it there, the
flow starts again.
-/

namespace GlassChain

open Library

namespace FlowRunner

variable {S : Type} [FlowState S] (R : FlowRunner S) (debug : FlowEvent → String) (flowId : String)

def Completes (M : FlowMemory S) : FlowCall S → Prop
  | .handle now initialState event => ∃ outcome M',
      R.handle debug now flowId initialState M event = .ok (some outcome, M') ∧
        outcome.completed = true
  | .ack _ executed => ∃ saved pending result, M.storage.lookup flowId = some saved ∧
      saved.pendingEvent = some pending ∧ R.tryApply saved.state pending = some result ∧
        result.completed = true ∧ result.actions.length ≤ executed

/-- The call asks for nothing of a flow that has not begun, and does not begin it. -/
def Silent : FlowCall S → Prop
  | .handle _ initialState event => event.isResumed = true ∨
      ∀ result, R.tryApply initialState event = some result →
        result.actions = [] ∧ result.completed = true
  | .ack .. => True

variable {R debug flowId} {M : FlowMemory S}

lemma lookup_finalize_completed (now : Nat) (state : S) :
    (R.finalize now flowId M state true).storage.lookup flowId = none := by
  simp [finalize]

/-- Completion removes the checkpoint. -/
lemma lookup_handleEvent_completed {now : Nat} {state : S} {event : FlowEvent}
    {outcome : FlowOutcome S}
    (handled : (R.handleEvent now flowId M state event).1 = some outcome)
    (completed : outcome.completed = true) :
    (R.handleEvent now flowId M state event).2.storage.lookup flowId = none := by
  unfold handleEvent at handled ⊢
  cases applied : R.tryApply state event with
  | none => simp [applied] at handled
  | some result =>
    simp only [applied] at handled ⊢
    split at handled
    · next silent =>
      cases handled
      have closed : result.completed = true := completed
      simp only [if_pos silent, closed, lookup_finalize_completed]
    · cases handled
      cases completed

lemma Completes.lookup {k : FlowCall S} (completes : R.Completes debug flowId M k) :
    (R.call debug flowId M k).1.storage.lookup flowId = none := by
  cases k with
  | ack now executed =>
    obtain ⟨saved, pending, result, found, waits, applied, completed, all⟩ := completes
    have closed : R.ack debug now flowId M executed =
        .ok (R.finalize now flowId M result.state true) := by
      simp [ack, found, waits, applied, completed, all]
    simp only [call, closed]
    exact lookup_finalize_completed now result.state
  | handle now initialState event =>
    obtain ⟨outcome, M', handled, completed⟩ := completes
    simp only [call, handled]
    have tried {M₁ : FlowMemory S} {state : S} (same : (.ok (R.handleEvent now flowId M₁ state event) :
        Except WorkflowError _) = .ok (some outcome, M')) : M'.storage.lookup flowId = none := by
      have result := Except.ok.inj same
      have none := lookup_handleEvent_completed (congrArg Prod.fst result) completed
      rwa [result] at none
    unfold handle at handled
    split at handled
    · split at handled
      · cases handled
      · exact tried handled
    · split at handled
      · split at handled
        · cases handled
        · exact tried handled
      · split at handled
        · cases handled
        · split at handled
          · split at handled
            · next closed =>
              obtain ⟨-, rfl⟩ := Prod.mk.inj (Except.ok.inj handled)
              rw [closed]
              exact lookup_finalize_completed now _
            · split at handled
              · obtain ⟨same, -⟩ := Prod.mk.inj (Except.ok.inj handled)
                cases same
                cases completed
              · exact tried handled
          · obtain ⟨same, -⟩ := Prod.mk.inj (Except.ok.inj handled)
            cases same
            cases completed

/-- What a call does to a flow without a checkpoint. -/
theorem quiet_call_iff (absent : M.storage.lookup flowId = none) (k : FlowCall S) :
    (answered (R.call debug flowId M k).2 = [] ∧
      (R.call debug flowId M k).1.storage.lookup flowId = none) ↔ R.Silent k := by
  cases k with
  | ack now executed => simp [call, ack, absent, returned, Silent]
  | handle now initialState event =>
    cases input : event.isResumed with
    | true => simp [call, handle, absent, input, returned, Silent]
    | false =>
      have handled : R.call debug flowId M (.handle now initialState event) =
          ((R.handleEvent now flowId M initialState event).2,
            .ok (R.handleEvent now flowId M initialState event).1) := by
        simp [call, handle, absent, input]
      rw [handled]
      cases applied : R.tryApply initialState event with
      | none => simp [handleEvent, applied, returned, absent, Silent]
      | some result =>
        cases acts : result.actions with
        | nil =>
          cases closed : result.completed <;>
            simp [handleEvent, applied, acts, closed, returned, Silent, finalize,
              saveCheckpoint, input]
        | cons action actions =>
          simp [handleEvent, applied, acts, returned, Silent, input]

/-- Calls that find no checkpoint stay without effect iff each is silent. -/
lemma quiet_calls_iff (absent : M.storage.lookup flowId = none) (calls : List (FlowCall S)) :
    Along (R.call debug flowId) (fun N k => answered (R.call debug flowId N k).2 = [] ∧
      (R.call debug flowId N k).1.storage.lookup flowId = none) M calls ↔
      ∀ k ∈ calls, R.Silent k := by
  induction calls generalizing M with
  | nil => exact ⟨by simp, fun _ => along_nil _ M⟩
  | cons k calls ih =>
    rw [along_cons, List.forall_mem_cons, quiet_call_iff absent]
    refine and_congr_right fun silent => ih ?_
    exact ((quiet_call_iff absent k).mpr silent).2

/-- After a call that completed the flow: no later call returns actions or changes what is stored
exactly when no later event is one that the table takes in the initial state, other than to complete
at once without actions. -/
theorem completion_terminal_iff (debug : FlowEvent → String) (start : FlowMemory S)
    (earlier : List (FlowCall S)) {k : FlowCall S}
    (completes : R.Completes debug flowId (R.called debug flowId start earlier) k)
    (later : List (FlowCall S)) :
    let M := R.called debug flowId start (earlier ++ [k])
    Along (R.call debug flowId) (fun N k => answered (R.call debug flowId N k).2 = [] ∧
      (R.call debug flowId N k).1.storage.lookup flowId = M.storage.lookup flowId) M later ↔
        ∀ k ∈ later, R.Silent k := by
  intro M
  have absent : M.storage.lookup flowId = none := by
    simp only [M, called_append]
    exact completes.lookup
  rw [absent]
  exact quiet_calls_iff absent later

end FlowRunner

/-! A purchase, from the buyer's side. -/

def buyerEvent (event : FlowEvent) : FlowCall PurchaseFlowState := .handle 0 (.rfqIssued "r1") event

def purchaseCalls : List (FlowCall PurchaseFlowState) :=
  [buyerEvent (.woken "quote-accepted:q1"), buyerEvent (.woken "commit-po"), .ack 0 1,
    buyerEvent (.recordCommitted (buildShipment "po:r1" 101 sellerDeal)), .ack 0 1]

lemma purchase_completes : (buyerFlow buyerDeal).Completes (fun _ => "") "purchase-1"
    ((buyerFlow buyerDeal).called (fun _ => "") "purchase-1" ⟨∅, ∅⟩ purchaseCalls)
    (buyerEvent (.woken "settle")) :=
  ⟨_, _, rfl, rfl⟩

/-- Events for later states leave the settled purchase alone. -/
theorem completion_terminal_sample :
    let M := (buyerFlow buyerDeal).called (fun _ => "") "purchase-1" ⟨∅, ∅⟩
      (purchaseCalls ++ [buyerEvent (.woken "settle")])
    answered ((buyerFlow buyerDeal).call (fun _ => "") "purchase-1" M
      (buyerEvent (.woken "settle"))).2 = [] := by
  have quiet := (FlowRunner.completion_terminal_iff (fun _ => "") ⟨∅, ∅⟩ purchaseCalls
    purchase_completes [buyerEvent (.woken "settle")]).mpr ?_
  · exact (along_cons.mp quiet).1.1
  · intro k listed
    obtain rfl := List.mem_singleton.mp listed
    refine .inr fun result taken => ?_
    cases taken

/-- The first two events once more: the flow begins again, and emits the same purchase order. -/
theorem completed_flow_restarts :
    let call := (buyerFlow buyerDeal).call (fun _ => "") "purchase-1"
    let settled := (buyerFlow buyerDeal).called (fun _ => "") "purchase-1" ⟨∅, ∅⟩
      (purchaseCalls ++ [buyerEvent (.woken "settle")])
    let quoted := call settled (buyerEvent (.woken "quote-accepted:q1"))
    (buyerFlow buyerDeal).Completes (fun _ => "") "purchase-1"
      ((buyerFlow buyerDeal).called (fun _ => "") "purchase-1" ⟨∅, ∅⟩ purchaseCalls)
      (buyerEvent (.woken "settle")) ∧
    settled.storage.lookup "purchase-1" = none ∧
    (quoted.1.storage.lookup "purchase-1").map Checkpoint.state =
      some (.quoteAccepted "r1" "q1") ∧
    answered (call quoted.1 (buyerEvent (.woken "commit-po"))).2 =
      [.emitRecord (buildPurchaseOrder "r1" buyerDeal)] := by
  exact ⟨purchase_completes, rfl, rfl, rfl⟩

end GlassChain
