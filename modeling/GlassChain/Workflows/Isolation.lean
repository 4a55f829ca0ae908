import GlassChain.Library.Erasure
import GlassChain.Workflows.Progress

/-!
# Flows over one memory

Runners keep the checkpoints of all flows in one storage, and one triage view. Every call reads and
writes the entries of its own flow only, so the calls on other flows can be left out of a run.
-/

namespace GlassChain

open Library AList FlowMemory

/-- What the memory holds of a flow. -/
def FlowMemory.part {S : Type} (M : FlowMemory S) (flowId : String) :
    Option (Checkpoint S) × Option TriageEntry :=
  (M.storage.lookup flowId, M.triage.lookup flowId)

namespace FlowRunner

variable {S : Type} {R : FlowRunner S} {debug : FlowEvent → String} {M M' : FlowMemory S}
  {flowId other : String} {now : Nat} {state : S} {event : FlowEvent}

lemma part_record {entry : TriageEntry} : (M.record entry).part flowId =
    if flowId = entry.flowId then (M.storage.lookup flowId, some entry) else M.part flowId := by
  grind [record, part, lookup_insert, lookup_insert_ne]

variable [FlowState S]

lemma part_saveCheckpoint {pending : Option FlowEvent} {next : Nat} :
    (R.saveCheckpoint now other M state pending next).part flowId =
      if flowId = other then (some (R.checkpoint now other state pending next),
        some ⟨other, R.flowKind, FlowState.step state, now⟩)
      else M.part flowId := by
  grind [saveCheckpoint, record, part, lookup_insert, lookup_insert_ne]

lemma part_finalize {completed : Bool} :
    (R.finalize now other M state completed).part flowId =
      if flowId = other then
        if completed then (none, none) else (R.saveCheckpoint now other M state none 0).part other
      else M.part flowId := by
  grind [finalize, part_saveCheckpoint, part, lookup_erase, lookup_erase_ne]

/-- An event of another flow does not reach this one. -/
lemma part_handleEvent (apart : flowId ≠ other) :
    (R.handleEvent now other M state event).2.part flowId = M.part flowId := by
  grind [handleEvent, part_finalize, part_saveCheckpoint]

lemma handleEvent_congr (same : M.part flowId = M'.part flowId) :
    (R.handleEvent now flowId M state event).1 = (R.handleEvent now flowId M' state event).1 ∧
      (R.handleEvent now flowId M state event).2.part flowId =
        (R.handleEvent now flowId M' state event).2.part flowId := by
  grind [handleEvent, part_finalize, part_saveCheckpoint]

lemma part_call_other (apart : flowId ≠ other) (k : FlowCall S) :
    (R.call debug other M k).1.part flowId = M.part flowId := by
  cases k <;> simp only [call, handle, ack] <;>
    grind [part_handleEvent, part_finalize, part_saveCheckpoint, part_record]

/-- A call reads its own flow's part only. -/
lemma part_call (same : M.part flowId = M'.part flowId) (k : FlowCall S) :
    (R.call debug flowId M k).1.part flowId = (R.call debug flowId M' k).1.part flowId ∧
      (R.call debug flowId M k).2 = (R.call debug flowId M' k).2 := by
  have stored : M.storage.lookup flowId = M'.storage.lookup flowId := congrArg Prod.fst same
  have recorded entry : (M.record entry).part flowId = (M'.record entry).part flowId := by
    grind [part_record]
  have finalized now state completed : (R.finalize now flowId M state completed).part flowId =
      (R.finalize now flowId M' state completed).part flowId := by
    grind [part_finalize, part_saveCheckpoint]
  cases found : M'.storage.lookup flowId with
  | none => cases k <;> simp only [call, handle, ack, stored, found] <;> grind [handleEvent_congr]
  | some saved =>
    cases waiting : saved.pendingEvent with
    | none =>
      cases k <;> simp only [call, handle, ack, stored, found, waiting] <;>
        grind [handleEvent_congr]
    | some pending =>
      cases applied : R.tryApply saved.state pending <;> cases k <;>
        simp only [call, handle, ack, stored, found, waiting, applied] <;>
        grind [handleEvent_congr, part_saveCheckpoint]

/-- Whatever is called on other flows, by any runners over the same memory (and so of the same state
type): what is stored of a flow and what its next call returns is what its own calls alone lead
to. -/
theorem flows_isolated (R : FlowRunner S) (debug : FlowEvent → String) (flowId : String)
    (M : FlowMemory S)
    (events : List ((FlowRunner S × { other // flowId ≠ other } × FlowCall S) ⊕ FlowCall S)) :
    let mixed := interleave (fun M (Q, other, k) => (Q.call debug other.1 M k).1)
      (fun M k => (R.call debug flowId M k).1) M events
    let alone := R.called debug flowId M (erase events)
    mixed.part flowId = alone.part flowId ∧
      ∀ k, (R.call debug flowId mixed k).2 = (R.call debug flowId alone k).2 := by
  intro mixed alone
  have same : mixed.part flowId = alone.part flowId := by
    refine related_erase (fun M M' : FlowMemory S => M.part flowId = M'.part flowId) ?_ ?_ rfl
      events (okAlong_of_all (fun _ _ => trivial) M events)
    · exact fun M M' event same _ => (part_call_other event.2.1.2 event.2.2).trans same
    · exact fun M M' k same => (part_call same k).1
  exact ⟨same, fun k => (part_call same k).2⟩

end FlowRunner

end GlassChain
