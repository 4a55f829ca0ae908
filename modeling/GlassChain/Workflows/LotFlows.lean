import GlassChain.Workflows.PurchaseFlow
import GlassChain.Core.Canonical

/-!
# Recalls, responses and attestations

Flows that several organizations run over one lot: an issuer recalls it, custodians quarantine it or
dispute the recall, certifiers and auditors attest it. Each emits records that name the lot, and
every field of a record comes from the configuration of its flow, a wake reason or the lot record.
-/

namespace GlassChain

open Library FlowRunner List FlowEvent

def emittedRecords (actions : List Action) : List CanonicalRecord :=
  actions.filterMap fun action => match action with
    | .emitRecord record => some record
    | .emitTransaction _ => none

lemma mem_emittedRecords {actions : List Action} {record : CanonicalRecord} :
    record ∈ emittedRecords actions ↔ .emitRecord record ∈ actions := by
  simp only [emittedRecords, mem_filterMap]
  constructor
  · rintro ⟨action, member, same⟩
    cases action with
    | emitTransaction tx => cases same
    | emitRecord r => exact Option.some.inj same ▸ member
  · exact fun member => ⟨_, member, rfl⟩

/-- On some events a transition keeps `P` of the state, and the records it emits are all `Q`. -/
def Transition.Keeps {S : Type} (t : Transition S) (heard : Set FlowEvent) (P : S → Prop)
    (Q : CanonicalRecord → Prop) : Prop :=
  ∀ state, ∀ event ∈ heard, P state → t.matchesPair state event = true →
    P (t.apply state event).state ∧
      ∀ record, .emitRecord record ∈ (t.apply state event).actions → Q record

namespace FlowRunner

variable {S : Type} [FlowState S] (R : FlowRunner S) (initialState : S)

/-- What a flow emits when its events are delivered, executed and acknowledged one after the
other. -/
def emitted (events : List FlowEvent) : List CanonicalRecord :=
  match R.crashFree (fun _ => "") "" initialState ⟨∅, ∅⟩ (events.map fun event => (event, 0)) with
  | .ok (_, actions) => emittedRecords actions
  | .error _ => []

lemma emitted_eq (events : List FlowEvent) :
    R.emitted initialState events = emittedRecords (R.flowRun initialState events).2 := by
  have fresh : (⟨∅, ∅⟩ : FlowMemory S).storage.lookup "" = none := rfl
  obtain ⟨M, run, -⟩ := R.crashFree_spec (fun _ => "") initialState fresh
    (events.map fun event => (event, 0))
  simp [emitted, run, Function.comp_def]

variable {R initialState} {heard : Set FlowEvent}

/-- What every transition keeps of the state, and gives of its records, holds of what is emitted. -/
theorem emitted_induction {P : S → Prop} {Q : CanonicalRecord → Prop} (start : P initialState)
    (step : ∀ t ∈ R.transitions, t.Keeps heard P Q) {events : List FlowEvent}
    (among : ∀ event ∈ events, event ∈ heard) {record : CanonicalRecord}
    (member : record ∈ R.emitted initialState events) : Q record := by
  rw [emitted_eq, mem_emittedRecords] at member
  suffices run : P ((R.flowRun initialState events).1.getD initialState) ∧
      ∀ record, .emitRecord record ∈ (R.flowRun initialState events).2 → Q record from
    run.2 record member
  clear member
  induction events using List.reverseRecOn with
  | nil => exact ⟨start, by simp [flowRun]⟩
  | append_singleton past event ih =>
    obtain ⟨held, before⟩ := ih fun event member => among event (by simp [member])
    rw [R.flowRun_concat]
    unfold flow
    split
    · simpa using ⟨held, before⟩
    · cases applied : R.tryApply ((R.flowRun initialState past).1.getD initialState) event with
      | none => simpa using ⟨held, before⟩
      | some result =>
        obtain ⟨t, found, rfl⟩ := Option.map_eq_some_iff.mp applied
        obtain ⟨kept, now⟩ := step t (mem_of_find?_eq_some found) _ event (among event (by simp))
          held (by simpa using find?_some found)
        refine ⟨?_, fun record emits => ?_⟩
        · cases closed : (t.apply ((R.flowRun initialState past).1.getD initialState) event).completed
          with
          | true => simpa [TransitionResult.next, closed] using start
          | false => simpa [TransitionResult.next, closed] using kept
        · rcases mem_append.mp emits with old | new
          · exact before record old
          · exact now record new

/-- What a flow can emit when only these events are delivered to it, in any order and number. -/
def CanEmit (R : FlowRunner S) (initialState : S) (heard : Set FlowEvent) : Set CanonicalRecord :=
  {record | ∃ events, (∀ event ∈ events, event ∈ heard) ∧ record ∈ R.emitted initialState events}

end FlowRunner

/-- A record of a lot with its commitment is among the events. -/
def LotHeard (heard : Set FlowEvent) (lotRef commitment : String) : Prop :=
  ∃ lot : CanonicalRecord, .recordCommitted lot ∈ heard ∧ lot.schemaId = "lot" ∧
    lot.recordId = lotRef ∧ lot.commitment = some commitment

structure RecallConfig where
  issuer : String
  lotRef : String
  issuedAt : Nat
  deriving DecidableEq, Repr

inductive RecallStatus where
  | issued
  | active
  | completed
  deriving DecidableEq, Repr

def RecallStatus.text : RecallStatus → String
  | .issued => "issued"
  | .active => "active"
  | .completed => "completed"

def recallId (lotRef : String) : RecallStatus → String
  | .issued => s!"recall:{lotRef}"
  | other => s!"recall:{lotRef}:{other.text}"

def buildRecall (lotRef reason : String) (status : RecallStatus) (config : RecallConfig) :
    CanonicalRecord :=
  .new (recallId lotRef status) config.issuedAt "recall"
    [("issued_by", .string config.issuer), ("lot_ref", .string lotRef),
      ("reason", .string reason), ("status", .string status.text)] config.issuer

inductive RecallFlowState where
  | awaitingLot
  | lotAnchored (lotRef lotCommitment : String)
  | recalled (lotRef recallRef reason : String)
  | recallActive (lotRef recallRef reason : String)
  | completed (recallRef : String)
  deriving DecidableEq, Repr

instance : FlowState RecallFlowState where
  step
    | .awaitingLot => "awaiting_lot"
    | .lotAnchored .. => "lot_anchored"
    | .recalled .. => "recalled"
    | .recallActive .. => "recall_active"
    | .completed _ => "completed"

variable (config : RecallConfig)

/-- Only the configured lot is anchored. -/
def recallAnchorLot : Transition RecallFlowState where
  name := "AnchorLot"
  matchesPair
    | .awaitingLot, .recordCommitted record =>
      record.schemaId == "lot" && record.commitment.isSome && record.recordId == config.lotRef
    | _, _ => false
  apply
    | state, .recordCommitted lot => match lot.commitment with
      | some commitment => ⟨.lotAnchored lot.recordId commitment, [], false⟩
      | none => .unchanged state
    | state, _ => .unchanged state

def issueRecall : Transition RecallFlowState where
  name := "IssueRecall"
  matchesPair
    | .lotAnchored .., .woken reason => startsWith "recall:" reason
    | _, _ => false
  apply
    | .lotAnchored lotRef _, .woken reason =>
      let recallReason := textAfter "recall:" reason
      let record := buildRecall lotRef recallReason .issued config
      ⟨.recalled lotRef record.recordId recallReason, [.emitRecord record], false⟩
    | state, _ => .unchanged state

def activateRecall : Transition RecallFlowState where
  name := "ActivateRecall"
  matchesPair
    | .recalled .., .woken reason => reason == "activate"
    | _, _ => false
  apply
    | .recalled lotRef _ reason, .woken _ =>
      let record := buildRecall lotRef reason .active config
      ⟨.recallActive lotRef record.recordId reason, [.emitRecord record], false⟩
    | state, _ => .unchanged state

def completeRecall : Transition RecallFlowState where
  name := "CompleteRecall"
  matchesPair
    | .recallActive .., .woken reason => reason == "complete"
    | _, _ => false
  apply
    | .recallActive lotRef _ reason, .woken _ =>
      let record := buildRecall lotRef reason .completed config
      ⟨.completed record.recordId, [.emitRecord record], true⟩
    | state, _ => .unchanged state

def recallFlow : FlowRunner RecallFlowState where
  flowKind := "recall"
  transitions :=
    [recallAnchorLot config, issueRecall config, activateRecall config, completeRecall config]

/-- The events bring the configured lot and a reason to recall it. -/
def RecallConfig.Recalls (heard : Set FlowEvent) (reason : String) : Prop :=
  (∃ commitment, LotHeard heard config.lotRef commitment) ∧
    ∃ wake, .woken wake ∈ heard ∧ startsWith "recall:" wake = true ∧ textAfter "recall:" wake = reason

/-- What takes a recall from its issue to a status. -/
def RecallStatus.wakes : RecallStatus → List FlowEvent
  | .issued => []
  | .active => [.woken "activate"]
  | .completed => [.woken "activate", .woken "complete"]

def RecallStatus.Heard (status : RecallStatus) (heard : Set FlowEvent) : Prop :=
  ∀ wake ∈ status.wakes, wake ∈ heard

section

variable (config : RecallConfig) (heard : Set FlowEvent)

def RecallFlowState.Of : RecallFlowState → Prop
  | .awaitingLot | .completed _ => True
  | .lotAnchored lotRef commitment => lotRef = config.lotRef ∧ LotHeard heard lotRef commitment
  | .recalled lotRef _ reason => lotRef = config.lotRef ∧ config.Recalls heard reason
  | .recallActive lotRef _ reason =>
    lotRef = config.lotRef ∧ config.Recalls heard reason ∧ .woken "activate" ∈ heard

def IsRecall (record : CanonicalRecord) : Prop :=
  ∃ reason status, config.Recalls heard reason ∧ status.Heard heard ∧
    record = buildRecall config.lotRef reason status config

variable {config heard}

lemma isRecall_of_mem {reason : String} {status : RecallStatus}
    (known : config.Recalls heard reason) (reached : status.Heard heard) (record : CanonicalRecord)
    (emits : .emitRecord record ∈
      [Action.emitRecord (buildRecall config.lotRef reason status config)]) :
    IsRecall config heard record := by
  obtain rfl : record = _ := by simpa using emits
  exact ⟨reason, status, known, reached, rfl⟩

lemma recallAnchorLot_keeps :
    (recallAnchorLot config).Keeps heard (RecallFlowState.Of config heard) (IsRecall config heard) := by
  intro state event among _ taken
  simp only [recallAnchorLot] at taken ⊢
  split at taken
  · simp only [Bool.and_eq_true, beq_iff_eq, Option.isSome_iff_exists] at taken
    obtain ⟨⟨lot, commitment, held⟩, named⟩ := taken
    simpa [held, RecallFlowState.Of, named] using ⟨_, among, lot, named, held⟩
  · cases taken

lemma issueRecall_keeps :
    (issueRecall config).Keeps heard (RecallFlowState.Of config heard) (IsRecall config heard) := by
  intro state event among known taken
  simp only [issueRecall] at taken ⊢
  split at taken
  · obtain ⟨rfl, lot⟩ := known
    have recalls : config.Recalls heard _ := ⟨⟨_, lot⟩, _, among, taken, rfl⟩
    exact ⟨⟨rfl, recalls⟩, isRecall_of_mem recalls nofun⟩
  · cases taken

lemma activateRecall_keeps :
    (activateRecall config).Keeps heard (RecallFlowState.Of config heard) (IsRecall config heard) := by
  intro state event among known taken
  simp only [activateRecall] at taken ⊢
  split at taken
  · obtain ⟨rfl, recalls⟩ := known
    obtain rfl := beq_iff_eq.mp taken
    exact ⟨⟨rfl, recalls, among⟩, isRecall_of_mem recalls
      (by simpa [RecallStatus.Heard, RecallStatus.wakes])⟩
  · cases taken

lemma completeRecall_keeps :
    (completeRecall config).Keeps heard (RecallFlowState.Of config heard) (IsRecall config heard) := by
  intro state event among known taken
  simp only [completeRecall] at taken ⊢
  split at taken
  · obtain ⟨rfl, recalls, active⟩ := known
    obtain rfl := beq_iff_eq.mp taken
    exact ⟨trivial, isRecall_of_mem recalls
      (by simpa [RecallStatus.Heard, RecallStatus.wakes] using ⟨active, among⟩)⟩
  · cases taken

/-- The flow emits the recalls its events allow, and all of them. -/
lemma recallFlow_canEmit (record : CanonicalRecord) :
    record ∈ (recallFlow config).CanEmit .awaitingLot heard ↔ IsRecall config heard record := by
  constructor
  · rintro ⟨events, among, member⟩
    have start : RecallFlowState.Of config heard .awaitingLot := trivial
    refine emitted_induction start ?_ among member
    simp only [recallFlow, forall_mem_cons]
    exact ⟨recallAnchorLot_keeps, issueRecall_keeps, activateRecall_keeps, completeRecall_keeps,
      by simp⟩
  · rintro ⟨_, status, ⟨⟨commitment, lot, anchored, isLot, named, held⟩, wake, woken, begins, rfl⟩,
      reached, rfl⟩
    -- the lot, the reason and the wakes of the status, one after the other
    have anchors : (recallFlow config).flow .awaitingLot none (.recordCommitted lot) =
        (some (.lotAnchored config.lotRef commitment), []) := by
      simp [flow, tryApply, recallFlow, recallAnchorLot, isResumed,
        TransitionResult.next, isLot, held, named]
    have issues : (recallFlow config).flow .awaitingLot
        (some (.lotAnchored config.lotRef commitment)) (.woken wake) =
        (some (.recalled config.lotRef (recallId config.lotRef .issued) (textAfter "recall:" wake)),
          [.emitRecord (buildRecall config.lotRef (textAfter "recall:" wake) .issued config)]) := by
      simp [flow, tryApply, recallFlow, recallAnchorLot, issueRecall,
        isResumed, TransitionResult.next, begins, buildRecall, CanonicalRecord.new]
    have activates (ref reason : String) : (recallFlow config).flow .awaitingLot
        (some (.recalled config.lotRef ref reason)) (.woken "activate") =
        (some (.recallActive config.lotRef (recallId config.lotRef .active) reason),
          [.emitRecord (buildRecall config.lotRef reason .active config)]) := rfl
    have completes (ref reason : String) : (recallFlow config).flow .awaitingLot
        (some (.recallActive config.lotRef ref reason)) (.woken "complete") =
        (none, [.emitRecord (buildRecall config.lotRef reason .completed config)]) := rfl
    refine ⟨.recordCommitted lot :: .woken wake :: status.wakes, by simpa [anchored, woken], ?_⟩
    rw [emitted_eq, mem_emittedRecords]
    cases status <;>
      simp [flowRun, anchors, issues, activates, completes, RecallStatus.wakes]

end

structure RecallResponseConfig where
  org : String
  lotRef : String
  respondedAt : Nat
  deriving DecidableEq, Repr

def responseId (lotRef transformationType : String) : String :=
  s!"transformation:{lotRef}:{transformationType}"

def buildResponse (lotRef transformationType : String) (config : RecallResponseConfig) :
    CanonicalRecord :=
  .new (responseId lotRef transformationType) config.respondedAt "inventory_transformation"
    [("lot_ref", .string lotRef), ("transformation_type", .string transformationType)] config.org

inductive RecallResponseState where
  | watchingLot (lotRef : String)
  | recallObserved (lotRef recallRef : String)
  | responded (lotRef responseRef : String)
  deriving DecidableEq, Repr

instance : FlowState RecallResponseState where
  step
    | .watchingLot _ => "watching_lot"
    | .recallObserved .. => "recall_observed"
    | .responded .. => "responded"

/-- The recall is compared with the lot that is watched; the configured lot is what follows. -/
def observeRecall (config : RecallResponseConfig) : Transition RecallResponseState where
  name := "ObserveRecall"
  matchesPair
    | .watchingLot lotRef, .recordCommitted record =>
      record.schemaId == "recall" && record.text "lot_ref" == some lotRef
    | _, _ => false
  apply
    | _, .recordCommitted observed => ⟨.recallObserved config.lotRef observed.recordId, [], false⟩
    | state, _ => .unchanged state

def wakeMatches (transformationType reason : String) : Bool :=
  match transformationType with
  | "quarantine" => reason == "quarantine"
  | "disputed" => reason == "dispute" || startsWith "dispute:" reason
  | other => reason == other

def respond (config : RecallResponseConfig) (transformationType : String) :
    Transition RecallResponseState where
  name := "Respond"
  matchesPair
    | .recallObserved .., .woken reason => wakeMatches transformationType reason
    | _, _ => false
  apply
    | .recallObserved lotRef _, .woken _ =>
      let record := buildResponse lotRef transformationType config
      ⟨.responded lotRef record.recordId, [.emitRecord record], true⟩
    | state, _ => .unchanged state

def responseFlow (kind : String) (config : RecallResponseConfig) (transformationType : String) :
    FlowRunner RecallResponseState where
  flowKind := kind
  transitions := [observeRecall config, respond config transformationType]

def quarantineFlow (config : RecallResponseConfig) : FlowRunner RecallResponseState :=
  responseFlow "quarantine" config "quarantine"

def disputeFlow (config : RecallResponseConfig) : FlowRunner RecallResponseState :=
  responseFlow "dispute" config "disputed"

section

variable (config : RecallResponseConfig) (transformationType watched : String) (heard : Set FlowEvent)

def RecallHeard : Prop :=
  ∃ notice : CanonicalRecord, .recordCommitted notice ∈ heard ∧ notice.schemaId = "recall" ∧
    notice.text "lot_ref" = some watched

/-- The events bring a recall of the watched lot and a wake for the response. -/
def Responds : Prop :=
  RecallHeard watched heard ∧
    ∃ reason, .woken reason ∈ heard ∧ wakeMatches transformationType reason = true

def RecallResponseState.Of : RecallResponseState → Prop
  | .watchingLot lotRef => lotRef = watched
  | .recallObserved lotRef _ => lotRef = config.lotRef ∧ RecallHeard watched heard
  | .responded .. => True

def IsResponse (record : CanonicalRecord) : Prop :=
  Responds transformationType watched heard ∧
    record = buildResponse config.lotRef transformationType config

variable {config transformationType watched heard}

lemma observeRecall_keeps : (observeRecall config).Keeps heard
    (RecallResponseState.Of config watched heard)
    (IsResponse config transformationType watched heard) := by
  intro state event among known taken
  simp only [observeRecall] at taken ⊢
  split at taken
  · obtain rfl : _ = watched := known
    simp only [Bool.and_eq_true, beq_iff_eq] at taken
    exact ⟨⟨rfl, _, among, taken⟩, by simp⟩
  · cases taken

lemma respond_keeps : (respond config transformationType).Keeps heard
    (RecallResponseState.Of config watched heard)
    (IsResponse config transformationType watched heard) := by
  intro state event among known taken
  simp only [respond] at taken ⊢
  split at taken
  · obtain ⟨rfl, recalled⟩ := known
    have responds : Responds transformationType watched heard := ⟨recalled, _, among, taken⟩
    exact ⟨trivial, by simp [IsResponse, responds]⟩
  · cases taken

lemma responseFlow_canEmit {kind : String} (record : CanonicalRecord) :
    record ∈ (responseFlow kind config transformationType).CanEmit (.watchingLot watched) heard ↔
      IsResponse config transformationType watched heard record := by
  constructor
  · rintro ⟨events, among, member⟩
    have start : RecallResponseState.Of config watched heard (.watchingLot watched) := rfl
    refine emitted_induction start ?_ among member
    simp only [responseFlow, forall_mem_cons]
    exact ⟨observeRecall_keeps, respond_keeps, by simp⟩
  · rintro ⟨⟨⟨notice, committed, isRecall, named⟩, reason, woken, wakes⟩, rfl⟩
    refine ⟨[.recordCommitted notice, .woken reason], by simp [committed, woken], ?_⟩
    rw [emitted_eq, mem_emittedRecords]
    simp [flowRun, flow, tryApply, responseFlow, observeRecall,
      respond, isResumed, TransitionResult.next, isRecall, named, wakes]

end

structure AttestationConfig where
  family : String
  issuer : String
  scope : String
  validFrom : String
  validTo : String
  issuedAt : Nat
  deriving DecidableEq, Repr

def manifestCommitment (X : Externals) (lotCommitment : String) (config : AttestationConfig) :
    String :=
  X.sha256 (utf8
    s!"manifest|{lotCommitment}|{config.scope}|{config.validFrom}|{config.validTo}")

def attestationId (family lotRef : String) : String := s!"{family}:{lotRef}"

def buildAttestation (X : Externals) (lotRef lotCommitment : String) (config : AttestationConfig) :
    CanonicalRecord :=
  let record : CanonicalRecord :=
    .new (attestationId config.family lotRef) config.issuedAt config.family
      [("evidence_manifest",
          .object [("manifest_commitment", .string (manifestCommitment X lotCommitment config))]),
        ("issuer", .string config.issuer), ("lot_ref", .string lotRef),
        ("scope", .string config.scope), ("status", .string "valid"),
        ("valid_from", .string config.validFrom), ("valid_to", .string config.validTo)]
      config.issuer
  -- the commitment is not part of what it is computed over
  { record with commitment := some (record.computedCommitment X) }

inductive AttestationFlowState where
  | awaitingLot
  | lotAnchored (lotRef lotCommitment : String)
  | completed (recordRef : String)
  deriving DecidableEq, Repr

instance : FlowState AttestationFlowState where
  step
    | .awaitingLot => "awaiting_lot"
    | .lotAnchored .. => "lot_anchored"
    | .completed _ => "completed"

/-- Whichever lot is committed first is anchored. -/
def anchorLot : Transition AttestationFlowState where
  name := "AnchorLot"
  matchesPair
    | .awaitingLot, .recordCommitted record =>
      record.schemaId == "lot" && record.commitment.isSome
    | _, _ => false
  apply
    | state, .recordCommitted lot => match lot.commitment with
      | some commitment => ⟨.lotAnchored lot.recordId commitment, [], false⟩
      | none => .unchanged state
    | state, _ => .unchanged state

def emitAttestation (X : Externals) (config : AttestationConfig) :
    Transition AttestationFlowState where
  name := "EmitAttestation"
  matchesPair
    | .lotAnchored .., .woken reason => reason == "attest"
    | _, _ => false
  apply
    | .lotAnchored lotRef lotCommitment, .woken _ =>
      let attestation := buildAttestation X lotRef lotCommitment config
      ⟨.completed attestation.recordId, [.emitRecord attestation], true⟩
    | state, _ => .unchanged state

/-- The family of the constructor replaces the configured one. -/
def attestationFlow (X : Externals) (family : String) (config : AttestationConfig) :
    FlowRunner AttestationFlowState where
  flowKind := "attestation"
  transitions := [anchorLot, emitAttestation X { config with family := family }]

def certificationFlow (X : Externals) (config : AttestationConfig) :
    FlowRunner AttestationFlowState :=
  attestationFlow X "quality_certification" config

def auditFlow (X : Externals) (config : AttestationConfig) : FlowRunner AttestationFlowState :=
  attestationFlow X "audit_attestation" config

section

variable (X : Externals) (config : AttestationConfig) (heard : Set FlowEvent)

def AttestationFlowState.Of : AttestationFlowState → Prop
  | .lotAnchored lotRef commitment => LotHeard heard lotRef commitment
  | .awaitingLot | .completed _ => True

def IsAttestation (record : CanonicalRecord) : Prop :=
  ∃ lotRef commitment, LotHeard heard lotRef commitment ∧ .woken "attest" ∈ heard ∧
    record = buildAttestation X lotRef commitment config

variable {X config heard}

lemma anchorLot_keeps :
    anchorLot.Keeps heard (AttestationFlowState.Of heard) (IsAttestation X config heard) := by
  intro state event among _ taken
  simp only [anchorLot] at taken ⊢
  split at taken
  · simp only [Bool.and_eq_true, beq_iff_eq, Option.isSome_iff_exists] at taken
    obtain ⟨lot, commitment, held⟩ := taken
    simpa [held, AttestationFlowState.Of] using ⟨_, among, lot, rfl, held⟩
  · cases taken

lemma emitAttestation_keeps : (emitAttestation X config).Keeps heard
    (AttestationFlowState.Of heard) (IsAttestation X config heard) := by
  intro state event among known taken
  simp only [emitAttestation] at taken ⊢
  split at taken
  · obtain rfl := beq_iff_eq.mp taken
    refine ⟨trivial, fun record emits => ?_⟩
    obtain rfl : record = _ := by simpa using emits
    exact ⟨_, _, known, among, rfl⟩
  · cases taken

lemma attestationFlow_canEmit {family : String} (record : CanonicalRecord) :
    record ∈ (attestationFlow X family config).CanEmit .awaitingLot heard ↔
      IsAttestation X { config with family := family } heard record := by
  constructor
  · rintro ⟨events, among, member⟩
    have start : AttestationFlowState.Of heard .awaitingLot := trivial
    refine emitted_induction start ?_ among member
    simp only [attestationFlow, forall_mem_cons]
    exact ⟨anchorLot_keeps, emitAttestation_keeps, by simp⟩
  · rintro ⟨_, commitment, ⟨lot, committed, isLot, rfl, held⟩, woken, rfl⟩
    refine ⟨[.recordCommitted lot, .woken "attest"], by simp [committed, woken], ?_⟩
    rw [emitted_eq, mem_emittedRecords]
    simp [flowRun, flow, tryApply, attestationFlow, anchorLot,
      emitAttestation, isResumed, TransitionResult.next, isLot, held]

end

end GlassChain
