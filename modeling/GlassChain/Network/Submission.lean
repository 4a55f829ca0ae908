import GlassChain.Contracts.Engine
import GlassChain.Network.WriteCoverage

/-!
# Taking transactions

How a transaction reaches the pending pool: `submit_transaction` evaluates its endorsement carriers
once enforcement is active and then queues it, a peer's `Message::Transaction` is queued as it is.
Both run the contract engine and queue what it generates. The engine runs after the ledger's
idempotency check on the first path and before it on the second; the check answers `Ok` for a
transaction it already knows. A mining attempt that the endorsement gate refuses returns its whole
slice to the pool.
-/

namespace GlassChain

open Library ContractEngine Ledger

structure IntakeState where
  ledger : Ledger
  engine : ContractEngine
  state : CommitState
  registry : PeerRegistry

/-- The engine on a submitted transaction; the error of a repeated registration is dropped. -/
def ContractEngine.onSubmit (X : Externals) (J : OfferJson) (clock : String → Nat)
    (E : ContractEngine) (tx : Transaction) : ContractEngine × List EngineEvent :=
  match tx.kind with
  | .supplyOffer offer => E.evaluateSupplyOffer X J clock offer tx.id
  | .contractCreation definition => ((E.registerContract definition).1, [])
  | _ => (E, [])

def ContractEngine.onPeer (X : Externals) (J : OfferJson) (clock : String → Nat)
    (E : ContractEngine) (tx : Transaction) : ContractEngine × List EngineEvent :=
  match tx.kind with
  | .supplyOffer offer => E.evaluateSupplyOffer X J clock offer tx.id
  | .contractCreation definition => (E.loadFromLedger definition, [])
  | _ => (E, [])

def Ledger.refusedAttempt (L : Ledger) : Ledger :=
  match L.prepareMining with
  | (L, .error _) => L
  | (L, .ok p) => L.restorePending p.transactions

/-- Carriers are evaluated before a submitted transaction is queued, while enforcement is active at
the next height. -/
def CommitState.admitSubmission (X : Externals) (S : CommitState) (chain : List Block)
    (tx : Transaction) : CommitState × Except CoreError Unit :=
  match S.endorsement with
  | none => (S, .ok ())
  | some provider => match S.capabilityEffectiveSet X chain chain.length with
    | (S, .error e) => (S, .error e)
    | (S, .ok set) =>
      if set.isActive endorsementCapabilityId then
        (S, evaluateTransactionEndorsements X provider S.policies tx [] chain.length)
      else (S, .ok ())

namespace IntakeState

def submitTransaction (X : Externals) (J : OfferJson) (clock : String → Nat) (N : IntakeState)
    (tx : Transaction) : IntakeState × Except CoreError Unit :=
  match N.state.admitSubmission X N.ledger.chain tx with
  | (S, .error e) => ({ N with state := S }, .error e)
  | (S, .ok ()) => match N.ledger.addTransaction X tx with
    | (L, .error e) => ({ N with state := S, ledger := L }, .error e)
    | (L, .ok ()) =>
      let evaluated := N.engine.onSubmit X J clock tx
      ({ N with
          state := S
          engine := evaluated.1
          ledger := L.addAll X (purchases evaluated.2) }, .ok ())

/-- `Message::Transaction` on a connection; `sender` is its stable address after the handshake. -/
def peerTransaction (X : Externals) (J : OfferJson) (clock : String → Nat) (N : IntakeState)
    (sender : Option String) (tx : Transaction) : IntakeState :=
  match sender with
  | none => N
  | some address =>
    if N.registry.isReadOnly address (activeSetAtTip X N.state N.ledger.chain) then N
    else
      let evaluated := N.engine.onPeer X J clock tx
      { N with
        engine := evaluated.1
        ledger := (N.ledger.addTransaction X tx).1.addAll X (purchases evaluated.2) }

end IntakeState

inductive IntakeInput where
  | submit (clock : String → Nat) (tx : Transaction)
  | peer (clock : String → Nat) (sender : Option String) (tx : Transaction)
  | refused

def IntakeInput.next (X : Externals) (J : OfferJson) (N : IntakeState) : IntakeInput → IntakeState
  | .submit clock tx => (N.submitTransaction X J clock tx).1
  | .peer clock sender tx => N.peerTransaction X J clock sender tx
  | .refused => { N with ledger := N.ledger.refusedAttempt }

def IntakeInput.Step (X : Externals) (J : OfferJson) (N : IntakeState) (input : IntakeInput)
    (N' : IntakeState) : Prop :=
  input.next X J N = N'

section Cases

variable {X : Externals} {J : OfferJson} {clock : String → Nat}

lemma ContractEngine.onSubmit_eq_onPeer (E : ContractEngine) (tx : Transaction) :
    E.onSubmit X J clock tx = E.onPeer X J clock tx := by
  unfold onSubmit onPeer
  split
  · rfl
  · rw [registerContract_fst]
  · rfl

variable {L : Ledger} {t tx : Transaction}

lemma Ledger.mem_addTransaction (queued : t ∈ (L.addTransaction X tx).1.pendingTransactions) :
    t ∈ L.pendingTransactions ∨ t = tx := by
  rcases L.addTransaction_cases X tx with e | e | e | ⟨-, -, e⟩ <;> rw [e] at queued
  · exact .inl queued
  · exact .inl (by simpa using queued)
  · exact .inl (by simpa using queued)
  · simpa using queued

variable {txs : List Transaction}

lemma Ledger.mem_foldl {step : Ledger → Transaction → Ledger}
    (single : ∀ L tx, t ∈ (step L tx).pendingTransactions → t ∈ L.pendingTransactions ∨ t = tx)
    (queued : t ∈ (txs.foldl step L).pendingTransactions) :
    t ∈ L.pendingTransactions ∨ t ∈ txs := by
  induction txs generalizing L with
  | nil => exact .inl queued
  | cons tx txs ih =>
    rcases ih queued with queued | later
    · rcases single L tx queued with before | rfl
      · exact .inl before
      · exact .inr List.mem_cons_self
    · exact .inr (List.mem_cons_of_mem tx later)

lemma Ledger.mem_addAll (queued : t ∈ (L.addAll X txs).pendingTransactions) :
    t ∈ L.pendingTransactions ∨ t ∈ txs :=
  mem_foldl (fun _ _ => mem_addTransaction) queued

lemma Ledger.mem_restorePending (queued : t ∈ (L.restorePending txs).pendingTransactions) :
    t ∈ L.pendingTransactions ∨ t ∈ txs := by
  refine mem_foldl (fun L tx queued => ?_) queued
  rcases L.restoreTransaction_cases tx with ⟨-, e⟩ | ⟨-, -, e⟩ <;> rw [e] at queued
  · exact .inl queued
  · rcases List.mem_append.mp queued with before | added
    · exact .inl before
    · exact .inr (List.mem_singleton.mp added)

lemma Ledger.mem_refusedAttempt (queued : t ∈ L.refusedAttempt.pendingTransactions) :
    t ∈ L.pendingTransactions := by
  unfold refusedAttempt prepareMining at queued
  cases last : L.chain.getLast? with
  | none => simpa [last] using queued
  | some tip =>
    simp only [last] at queued
    rcases mem_restorePending queued with kept | returned
    · exact List.mem_of_mem_drop kept
    · exact List.mem_of_mem_take returned

@[simp]
lemma Ledger.refusedAttempt_chain (L : Ledger) : L.refusedAttempt.chain = L.chain := by
  unfold refusedAttempt prepareMining
  cases last : L.chain.getLast? <;> simp [drainSlice]

/-- Filling the capability cache changes nothing else, and not what the gate finds. -/
theorem CommitState.admitSubmission_frame (X : Externals) (S : CommitState) (chain : List Block)
    (tx : Transaction) :
    (S.admitSubmission X chain tx).1.endorsement = S.endorsement ∧
      (S.admitSubmission X chain tx).1.policies = S.policies ∧
      ∀ height,
        gateSet X (S.admitSubmission X chain tx).1 chain height = gateSet X S chain height := by
  obtain ⟨executor, contracts, world, endorsement, policies, cached⟩ := S
  cases endorsement with
  | none => exact ⟨rfl, rfl, fun _ => rfl⟩
  | some provider =>
    cases cached with
    | some history =>
      simp only [admitSubmission, capabilityEffectiveSet]
      split <;> exact ⟨rfl, rfl, fun _ => rfl⟩
    | none =>
      simp only [admitSubmission, capabilityEffectiveSet]
      cases built : CapabilityHistory.buildFromBlocks X chain with
      | error e => exact ⟨rfl, rfl, fun _ => rfl⟩
      | ok history =>
        simp only
        split <;> exact ⟨rfl, rfl, fun _ => by simp [gateSet, capabilityEffectiveSet, built]⟩

variable {provider : EndorsementProvider}

/-- Under an active capability a submission is admitted only if its carriers pass. -/
theorem CommitState.admitSubmission_eq_ok {S : CommitState} {chain : List Block}
    (attached : S.endorsement = some provider) {set : CapabilitySet}
    (found : gateSet X S chain chain.length = .ok set)
    (active : set.isActive endorsementCapabilityId = true)
    (admitted : (S.admitSubmission X chain tx).2 = .ok ()) :
    evaluateTransactionEndorsements X provider S.policies tx [] chain.length = .ok () := by
  obtain ⟨executor, contracts, world, endorsement, policies, cached⟩ := S
  obtain rfl : endorsement = some provider := attached
  obtain ⟨history, frame⟩ := capabilityEffectiveSet_frame X
    ⟨executor, contracts, world, some provider, policies, cached⟩ chain chain.length (some provider)
  simpa [admitSubmission, frame, found, active] using admitted

/-- What a purchase queues has no carrier and needs none. -/
theorem purchases_pass {policies : PolicyHistory} {height : Nat} {E : ContractEngine}
    {offer : SupplyOffer} {offerTxId : String}
    (generated : tx ∈ purchases (E.evaluateSupplyOffer X J clock offer offerTxId).2) :
    evaluateTransactionEndorsements X provider policies tx [] height = .ok () := by
  obtain ⟨event, member, emitted⟩ := List.mem_filterMap.mp generated
  obtain ⟨id, c, -, ofContract⟩ := mem_evaluateSupplyOffer.mp member
  have own : tx ∈ purchases (c.evaluate X J E.executor clock offer offerTxId).2 :=
    List.mem_filterMap.mpr ⟨event, ofContract, emitted⟩
  rcases Contract.purchases_evaluate X J E.executor clock offer offerTxId c with
    none | ⟨-, plan, plans, bought⟩
  · simp [none] at own
  · obtain ⟨order, isOrder⟩ := plans.order
    obtain ⟨execution, isExecution, -, -⟩ := plans.execution
    have either : tx = plan.purchaseOrder ∨ tx = plan.execution := by
      simpa [bought] using own
    refine evaluateTransactionEndorsements_eq_ok.mpr ?_
    rcases either with rfl | rfl
    · simp [plans.carriers, isOrder, TransactionKind.isPolicyUpdate, evaluateDefault,
        operationDefault, bind, Except.bind, pure, Except.pure]
    · simp [plans.carriers, isExecution, TransactionKind.isPolicyUpdate, evaluateDefault,
        operationDefault, bind, Except.bind, pure, Except.pure]

lemma onPeer_purchases_pass {policies : PolicyHistory} {height : Nat} {E : ContractEngine}
    (generated : tx ∈ purchases (E.onPeer X J clock t).2) :
    evaluateTransactionEndorsements X provider policies tx [] height = .ok () := by
  unfold onPeer at generated
  split at generated
  · exact purchases_pass generated
  · simp at generated
  · simp at generated

end Cases

/-- Every queued transaction passes the evaluation of its carriers at the next height. -/
def PoolPasses (X : Externals) (provider : EndorsementProvider) (N : IntakeState) : Prop :=
  ∀ tx ∈ N.ledger.pendingTransactions,
    evaluateTransactionEndorsements X provider N.state.policies tx [] N.ledger.chain.length = .ok ()

/-- The node enforces endorsements at the next height. -/
structure Enforcing (X : Externals) (provider : EndorsementProvider) (N : IntakeState) : Prop where
  attached : N.state.endorsement = some provider
  active : ∃ set, gateSet X N.state N.ledger.chain N.ledger.chain.length = .ok set ∧
    set.isActive endorsementCapabilityId = true

/-- What peers with a finished handshake send passes the evaluation that only submissions
undergo. -/
def PeersPass (X : Externals) (provider : EndorsementProvider) (N : IntakeState) :
    IntakeInput → Prop
  | .submit _ _ | .refused => True
  | .peer _ sender tx => sender.isSome = true →
    evaluateTransactionEndorsements X provider N.state.policies tx [] N.ledger.chain.length = .ok ()

section Pool

variable {X : Externals} {J : OfferJson} {provider : EndorsementProvider} {N : IntakeState}

lemma PoolPasses.grow {L : Ledger} {tx : Transaction} (passes : PoolPasses X provider N)
    (txs : List Transaction) (chain : L.chain = N.ledger.chain)
    (pool : ∀ t ∈ L.pendingTransactions, t ∈ N.ledger.pendingTransactions ∨ t = tx ∨ t ∈ txs)
    (first : evaluateTransactionEndorsements X provider N.state.policies tx []
      N.ledger.chain.length = .ok ())
    (rest : ∀ t ∈ txs, evaluateTransactionEndorsements X provider N.state.policies t []
      N.ledger.chain.length = .ok ()) {S : CommitState} (policies : S.policies = N.state.policies)
    (E : ContractEngine) : PoolPasses X provider ⟨L, E, S, N.registry⟩ := by
  intro t queued
  simp only [policies, chain]
  rcases pool t queued with before | rfl | generated
  · exact passes t before
  · exact first
  · exact rest t generated

lemma PoolPasses.submit (passes : PoolPasses X provider N) (enforcing : Enforcing X provider N)
    (clock : String → Nat) (tx : Transaction) :
    PoolPasses X provider (N.submitTransaction X J clock tx).1 ∧
      Enforcing X provider (N.submitTransaction X J clock tx).1 := by
  obtain ⟨attached, policies, gate⟩ := N.state.admitSubmission_frame X N.ledger.chain tx
  obtain ⟨set, found, active⟩ := enforcing.active
  have enforced (L : Ledger) (E : ContractEngine) (chain : L.chain = N.ledger.chain) :
      Enforcing X provider ⟨L, E, (N.state.admitSubmission X N.ledger.chain tx).1, N.registry⟩ := by
    refine ⟨attached.trans enforcing.attached, set, ?_, active⟩
    simp only [chain, gate]
    exact found
  unfold IntakeState.submitTransaction
  rcases admitted : N.state.admitSubmission X N.ledger.chain tx with ⟨S, e | ⟨⟩⟩
  all_goals rw [admitted] at enforced policies
  · refine ⟨fun t queued => ?_, enforced N.ledger N.engine rfl⟩
    have before := passes t queued
    rwa [← policies] at before
  · have first := N.state.admitSubmission_eq_ok enforcing.attached found active
      (congrArg Prod.snd admitted)
    rcases added : N.ledger.addTransaction X tx with ⟨L, e | ⟨⟩⟩
    all_goals
      have chain : L.chain = N.ledger.chain := by
        simpa [added] using N.ledger.addTransaction_chain (X := X) tx
      have queued (t : Transaction) (member : t ∈ L.pendingTransactions) :
          t ∈ N.ledger.pendingTransactions ∨ t = tx :=
        mem_addTransaction (X := X) (by rw [added]; exact member)
    · refine ⟨passes.grow [] chain (fun t member => ?_) first (by simp) policies N.engine,
        enforced L N.engine chain⟩
      exact (queued t member).imp_right .inl
    · simp only [onSubmit_eq_onPeer]
      refine ⟨passes.grow (purchases (N.engine.onPeer X J clock tx).2) (by simpa using chain)
        (fun t member => ?_) first
        (fun t generated => onPeer_purchases_pass generated) policies _,
        enforced _ _ (by simpa using chain)⟩
      rcases mem_addAll member with before | generated
      · exact (queued t before).imp_right .inl
      · exact .inr (.inr generated)

lemma PoolPasses.peer (passes : PoolPasses X provider N) (enforcing : Enforcing X provider N)
    (clock : String → Nat) (sender : Option String) (tx : Transaction)
    (sent : PeersPass X provider N (.peer clock sender tx)) :
    PoolPasses X provider (N.peerTransaction X J clock sender tx) ∧
      Enforcing X provider (N.peerTransaction X J clock sender tx) := by
  unfold IntakeState.peerTransaction
  cases sender with
  | none => exact ⟨passes, enforcing⟩
  | some address =>
    simp only
    split
    · exact ⟨passes, enforcing⟩
    · refine ⟨passes.grow (purchases (N.engine.onPeer X J clock tx).2) (by simp)
        (fun t member => ?_) (sent rfl)
        (fun t generated => onPeer_purchases_pass generated) rfl _, enforcing.attached, ?_⟩
      · rcases mem_addAll member with before | generated
        · exact (mem_addTransaction before).imp_right .inl
        · exact .inr (.inr generated)
      · simpa using enforcing.active

lemma PoolPasses.refused (passes : PoolPasses X provider N) (enforcing : Enforcing X provider N) :
    PoolPasses X provider { N with ledger := N.ledger.refusedAttempt } ∧
      Enforcing X provider { N with ledger := N.ledger.refusedAttempt } := by
  refine ⟨fun t queued => ?_, enforcing.attached, ?_⟩
  · simpa using passes t (mem_refusedAttempt queued)
  · simpa using enforcing.active

/-- All that is left for the gate to refuse in a block from a pool that passes: its policy metadata,
and writes outside the carriers. -/
theorem PoolPasses.block (passes : PoolPasses X provider N) {b : Block}
    (writes : List (List PersistentWrite)) (next : b.index = N.ledger.chain.length)
    (taken : ∀ tx ∈ b.transactions, tx ∈ N.ledger.pendingTransactions) :
    N.state.evaluateBlockEndorsements X provider b writes = .ok () ↔
      (N.state.policies.validateBlock b).2 = .ok () ∧
      (∀ tx i, (tx, i) ∈ b.transactions.zipIdx → ∀ w ∈ (writes[i]?).getD [],
        ∃ e ∈ tx.endorsements, e.covers w = true) ∧
      (writes = [] → checkAggregateCoverage b = .ok ()) := by
  have carriers (tx : Transaction) (i : Nat) (member : (tx, i) ∈ b.transactions.zipIdx) :
      evaluateTransactionEndorsements X provider N.state.policies tx ((writes[i]?).getD [])
          b.index = .ok () ↔
        ∀ w ∈ (writes[i]?).getD [], ∃ e ∈ tx.endorsements, e.covers w = true := by
    have alone := passes tx (taken tx (List.fst_mem_of_mem_zipIdx member))
    obtain ⟨-, rest⟩ := evaluateTransactionEndorsements_eq_ok.mp alone
    rw [evaluateTransactionEndorsements_eq_ok, next]
    exact and_iff_left rest
  unfold CommitState.evaluateBlockEndorsements
  rw [seq_eq_ok, List.forM_eq_forM, seq_eq_ok, forM_eq_ok]
  refine and_congr_right fun _ => and_congr ?_ ?_
  · rw [Prod.forall]
    exact forall₃_congr carriers
  · cases writes with
    | nil => simp
    | cons _ _ => simp [pure, Except.pure]

/-- While a node enforces endorsements, in every run in which the peers' transactions pass the
evaluation, the whole pool passes it at the next height, and no block from the pool is refused for
the carriers of a transaction. -/
theorem pool_endorsed_along_runs (X : Externals) (J : OfferJson) {provider : EndorsementProvider}
    {N N' : IntakeState} (enforcing : Enforcing X provider N) (start : PoolPasses X provider N)
    (run : Reaches (IntakeInput.Step X J) (PeersPass X provider) N N') :
    PoolPasses X provider N' ∧
      ∀ (b : Block) (writes : List (List PersistentWrite)), b.index = N'.ledger.chain.length →
        (∀ tx ∈ b.transactions, tx ∈ N'.ledger.pendingTransactions) →
        (N'.state.evaluateBlockEndorsements X provider b writes = .ok () ↔
          (N'.state.policies.validateBlock b).2 = .ok () ∧
          (∀ tx i, (tx, i) ∈ b.transactions.zipIdx → ∀ w ∈ (writes[i]?).getD [],
            ∃ e ∈ tx.endorsements, e.covers w = true) ∧
          (writes = [] → checkAggregateCoverage b = .ok ())) := by
  have kept : PoolPasses X provider N' ∧ Enforcing X provider N' := by
    refine run.invariant (I := fun N => PoolPasses X provider N ∧ Enforcing X provider N) ?_
      ⟨start, enforcing⟩
    rintro N input N' ⟨passes, enforcing⟩ sent rfl
    cases input with
    | submit clock tx => exact passes.submit enforcing clock tx
    | peer clock sender tx => exact passes.peer enforcing clock sender tx sent
    | refused => exact passes.refused enforcing
  exact ⟨kept.1, fun b writes next taken => kept.1.block writes next taken⟩

end Pool

def refusingProvider : EndorsementProvider := fun _ _ _ => .ok false

variable (X)

def intakeSample : IntakeState :=
  ⟨⟨endorsingChain X, [], 0, 2, some ⟨[sampleActivation X endorsementCapabilityId]⟩, 0, none⟩, .new,
    { endorsingState X with endorsement := some refusingProvider }, openRegistry⟩

lemma intakeSample_enforcing : Enforcing X refusingProvider (intakeSample X) :=
  ⟨rfl, _, rfl, CapabilityHistory.effectiveSet_activation X _ le_rfl⟩

lemma intakeSample_passes : PoolPasses X refusingProvider (intakeSample X) := by
  intro tx queued
  cases queued

def intakeSampleAfter (tx : Transaction) : IntakeState :=
  (intakeSample X).peerTransaction X (fun _ => .ok []) (fun _ => 0) (some "peer") tx

def bareUpdate : Transaction :=
  ⟨"policy", 0, .policyUpdate ⟨"main", "notes", ⟨.signedBy ⟨"owner"⟩, none, none, []⟩⟩, []⟩

def bareBlock : Block :=
  Block.withWriteSet X 0 2 [bareUpdate] (activating X endorsementCapabilityId).hash []

variable {X}

lemma bareUpdate_fails (policies : PolicyHistory) (writes : List PersistentWrite) :
    evaluateTransactionEndorsements (.plain 0) refusingProvider policies bareUpdate writes 2 ≠
      .ok () := by
  intro passed
  obtain ⟨-, carried, -⟩ := evaluateTransactionEndorsements_eq_ok.mp passed
  exact carried rfl rfl

/-- A submission of the update is refused. From a peer it is queued, and then the gate refuses the
block that takes it from the pool, which puts it back. -/
theorem bare_update_wedges_mining :
    Enforcing (.plain 0) refusingProvider (intakeSample (.plain 0)) ∧
      PoolPasses (.plain 0) refusingProvider (intakeSample (.plain 0)) ∧
      ((intakeSample (.plain 0)).submitTransaction (.plain 0) (fun _ => .ok []) (fun _ => 0)
        bareUpdate).2 ≠ .ok () ∧
      Reaches (IntakeInput.Step (.plain 0) fun _ => .ok []) anyStep (intakeSample (.plain 0))
        (intakeSampleAfter (.plain 0) bareUpdate) ∧
      ¬PoolPasses (.plain 0) refusingProvider (intakeSampleAfter (.plain 0) bareUpdate) ∧
      (∀ writes, (intakeSampleAfter (.plain 0) bareUpdate).state.evaluateBlockEndorsements
        (.plain 0) refusingProvider (bareBlock (.plain 0)) writes ≠ .ok ()) ∧
      (intakeSampleAfter (.plain 0) bareUpdate).ledger.refusedAttempt.pendingTransactions =
        [bareUpdate] := by
  have queued : (intakeSampleAfter (.plain 0) bareUpdate).ledger.pendingTransactions =
      [bareUpdate] := rfl
  refine ⟨intakeSample_enforcing _, intakeSample_passes _, ?_,
    (Reaches.refl _).tail (.peer (fun _ => 0) (some "peer") bareUpdate) trivial rfl, ?_, ?_, rfl⟩
  · intro accepted
    cases accepted
  · intro passes
    exact bareUpdate_fails _ [] (passes bareUpdate (by simp [queued]))
  · intro writes accepted
    unfold CommitState.evaluateBlockEndorsements at accepted
    rw [seq_eq_ok, List.forM_eq_forM, seq_eq_ok, forM_eq_ok] at accepted
    exact bareUpdate_fails _ _
      (accepted.2.1 (bareUpdate, 0) (by simp [bareBlock, Block.withWriteSet]))

def bareOffer : Transaction :=
  ⟨"offer", 0, .supplyOffer ⟨"SKU-1", "Widget", "seller", 1, 1, 1, "USD"⟩, []⟩

/-- A peer's offer leaves the pool endorsed. -/
theorem pool_endorsed_offer :
    (intakeSampleAfter (.plain 0) bareOffer).ledger.pendingTransactions = [bareOffer] ∧
      PoolPasses (.plain 0) refusingProvider (intakeSampleAfter (.plain 0) bareOffer) := by
  have passes : evaluateTransactionEndorsements (.plain 0) refusingProvider ⟨[]⟩ bareOffer [] 2 =
      .ok () := rfl
  exact ⟨rfl, (pool_endorsed_along_runs (.plain 0) (fun _ => .ok []) (intakeSample_enforcing _)
    (intakeSample_passes _) ((Reaches.refl _).tail (.peer (fun _ => 0) (some "peer") bareOffer)
      (fun _ => passes) rfl)).1⟩

end GlassChain
