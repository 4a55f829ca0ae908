import GlassChain.Core.Block
import GlassChain.Library.InPlace

/-!
# Endorsement policies

Policy expressions over distinct principals, the scoped policy layers, the policy history replayed
from committed blocks, and the evaluation of a transaction's endorsement carriers. The provider
that authenticates signers is attached by the operator, so it is a parameter.
-/

namespace GlassChain

namespace PolicyExpression

mutual

def validate : PolicyExpression → Except CoreError Unit
  | .signedBy principal => require (principal.name ≠ "") (.invalidTransaction
      "endorsement policy: principal must not be empty")
  | .nOutOf required rules => do
    require (!rules.isEmpty) (.invalidTransaction
      "endorsement policy: NOutOf needs at least one rule")
    require (required ≠ 0 && required ≤ rules.length) (.invalidTransaction
      s!"endorsement policy: required {required} must be in 1..={rules.length}")
    validateAll rules

def validateAll : List PolicyExpression → Except CoreError Unit
  | [] => .ok ()
  | rule :: rules => do
    rule.validate
    validateAll rules

end

def requiredCount : PolicyExpression → Nat
  | .signedBy _ => 1
  | .nOutOf required _ => required

end PolicyExpression

namespace ScopedPolicies

/-- Every policy applicable to `target`, in precedence order. -/
def applicable (p : ScopedPolicies) (target : ScopedTarget) : List PolicyExpression :=
  p.channelDefault :: p.contractDefault.toList ++
    (if target.collection.isSome then p.collectionPolicy.toList else []) ++
    target.keys.filterMap fun key => lookup key p.keyPolicies

def validate (p : ScopedPolicies) : Except CoreError Unit := do
  p.channelDefault.validate
  p.contractDefault.toList.forM PolicyExpression.validate
  p.collectionPolicy.toList.forM PolicyExpression.validate
  p.keyPolicies.forM fun e => do
    require (e.1 ≠ "") (.invalidTransaction
      "endorsement policy: key-level policy names an empty key")
    e.2.validate

end ScopedPolicies

def networkGovernancePrincipal : String := "network-governance"

structure PolicyHistory where
  updates : List PolicyUpdate

namespace PolicyHistory

def defaultPolicies : ScopedPolicies :=
  ⟨.signedBy ⟨networkGovernancePrincipal⟩, none, none, []⟩

/-- The last update for the exact scope, else the last channel-wide one, else the default. -/
def policiesFor (h : PolicyHistory) (channel contract : String) : ScopedPolicies :=
  let exact := h.updates.reverse.find? fun u => u.channel == channel && u.contract == contract
  let channelWide := h.updates.reverse.find? fun u => u.channel == channel && u.contract == ""
  ((exact.or channelWide).map PolicyUpdate.policies).getD defaultPolicies

def check (update : PolicyUpdate) : Except CoreError Unit := do
  require (update.channel ≠ "") (.invalidTransaction
    "endorsement policy update: channel must not be empty")
  update.policies.validate

def apply (h : PolicyHistory) (update : PolicyUpdate) : PolicyHistory × Except CoreError Unit :=
  match check update with
  | .ok () => (⟨h.updates ++ [update]⟩, .ok ())
  | .error e => (h, .error e)

def pendingUpdates (b : Block) : List PolicyUpdate :=
  b.transactions.filterMap fun tx => match tx.kind with
    | .policyUpdate update => some update
    | _ => none

def changedKeys (b : Block) : List (String × String × String) :=
  (pendingUpdates b).flatMap fun u => u.policies.keyPolicies.map fun e =>
    (u.channel, u.contract, e.1)

/-- Scoped keys the block writes: its write set and the declared targets of the transactions that
are not policy updates. -/
def writtenKeys (b : Block) : List (String × String × String) :=
  b.writeSet.map (fun w => (w.channel, w.contract, w.key)) ++
    b.transactions.flatMap fun tx => match tx.kind with
      | .policyUpdate _ => []
      | _ => tx.endorsements.flatMap fun e => e.target.keys.map fun key =>
          (e.target.channel, e.target.contract, key)

/-- Replay one block: the same-block rule first, then the updates in order. -/
def validateBlock (h : PolicyHistory) (b : Block) : PolicyHistory × Except CoreError Unit :=
  match (writtenKeys b).find? (changedKeys b).contains with
  | some (channel, contract, key) => (h, .error (.invalidTransaction
      (s!"endorsement policy: key '{key}' on ({channel}, {contract}) is both " ++
        "policy-updated and written in the same block")))
  | none => Library.runInPlace apply h (pendingUpdates b)

def buildFromBlocks (blocks : List Block) : Except CoreError PolicyHistory :=
  match Library.runInPlace validateBlock ⟨[]⟩ blocks with
  | (h, .ok ()) => .ok h
  | (_, .error e) => .error e

end PolicyHistory

structure EndorsementRequest where
  target : ScopedTarget
  payload : Bytes
  signers : List EndorserIdentity

/-- `EndorsementProvider::evaluate`, reduced to the field its callers here read: whether the
policy is satisfied. -/
abbrev EndorsementProvider := PolicyExpression → EndorsementRequest → Nat → Except CoreError Bool

namespace TransactionEndorsement

/-- What endorsers sign: the transaction without its carriers. -/
def payload (X : Externals) (tx : Transaction) : Bytes :=
  X.transactionJson { tx with endorsements := [] }

def covers (e : TransactionEndorsement) (write : PersistentWrite) : Bool :=
  write.channel == e.target.channel && write.contract == e.target.contract &&
    e.target.keys.contains write.key &&
    match write.visibility, e.target.collection with
    | .pub, none => true
    | .pdc name, some collection => name == collection
    | _, _ => false

end TransactionEndorsement

def payloadName (record : CanonicalRecord) (key : String) : Option String :=
  ((lookup key record.payload).bind Value.asStr).filter (· ≠ "")

def counterpartyRules (counterparties : List Value) : Except CoreError (List PolicyExpression) :=
  counterparties.mapM fun c => match c.asStr.filter (· ≠ "") with
    | some name => .ok (.signedBy ⟨name⟩)
    | none => .error (.invalidTransaction
        "endorsement: state commitment counterparty must be a non-empty organization name")

/-- The default of a record family that demands more than the scoped policies. -/
def recordDefault (record : CanonicalRecord) : Except CoreError (Option PolicyExpression) :=
  match record.schemaId with
  | "delivery_receipt" => match payloadName record "receiver_id" with
    | some receiver => .ok (some (.nOutOf 2 [.signedBy ⟨record.issuer⟩, .signedBy ⟨receiver⟩]))
    | none => .error (.invalidTransaction
        "endorsement: custody handoff record is missing 'receiver_id'")
  | "recall" => match payloadName record "issued_by" with
    | some _ => .ok (some (.signedBy ⟨record.issuer⟩))
    | none => .error (.invalidTransaction
        "endorsement: recall record is missing 'issued_by'")
  | "quality_certification" | "audit_attestation" => match payloadName record "issuer" with
    | some issuer => .ok (some (.signedBy ⟨issuer⟩))
    | none => .error (.invalidTransaction
        "endorsement: certification/audit record is missing 'issuer'")
  | "state_commitment" =>
    match (lookup "counterparties" record.payload).bind Value.asArray with
    | some counterparties => do
      let others ← counterpartyRules counterparties
      return some (.nOutOf (others.length + 1) (.signedBy ⟨record.issuer⟩ :: others))
    | none => .error (.invalidTransaction
        "endorsement: state commitment record is missing 'counterparties'")
  | _ => .ok none

def operationDefault (tx : Transaction) : Except CoreError (Option PolicyExpression) :=
  match tx.kind with
  | .capabilityActivation _ => .ok (some (.signedBy ⟨"network-governance"⟩))
  | .canonicalRecord record => recordDefault record
  | _ => .ok none

def evaluateCarrier (X : Externals) (provider : EndorsementProvider) (history : PolicyHistory)
    (tx : Transaction) (height : Nat) (e : TransactionEndorsement) : Except CoreError Unit :=
  let policies := history.policiesFor e.target.channel e.target.contract
  let request : EndorsementRequest := ⟨e.target, TransactionEndorsement.payload X tx, e.signers⟩
  (policies.applicable e.target).forM fun policy => do
    let satisfied ← provider policy request height
    require satisfied (.invalidTransaction
      (s!"endorsement: transaction '{tx.id}' failed policy evaluation " ++
        s!"(required {policy.requiredCount})"))

/-- The operation default, satisfied by the union of the transaction's signers. -/
def evaluateDefault (X : Externals) (provider : EndorsementProvider) (tx : Transaction)
    (height : Nat) : Except CoreError Unit := do
  match ← operationDefault tx with
  | none => pure ()
  | some policy =>
    let request : EndorsementRequest := ⟨⟨"", "", [], none⟩, TransactionEndorsement.payload X tx,
      tx.endorsements.flatMap TransactionEndorsement.signers⟩
    let satisfied ← provider policy request height
    require satisfied (.invalidTransaction
      (s!"endorsement: transaction '{tx.id}' failed its operation default " ++
        s!"(required {policy.requiredCount})"))

/-- Every write inside a declared scope, every scoped layer and the operation default satisfied. -/
def evaluateTransactionEndorsements (X : Externals) (provider : EndorsementProvider)
    (history : PolicyHistory) (tx : Transaction) (partialWrites : List PersistentWrite)
    (height : Nat) : Except CoreError Unit := do
  match partialWrites.find? fun w => !(tx.endorsements.any fun e => e.covers w) with
  | some write => throw (.invalidTransaction
      (s!"endorsement: transaction '{tx.id}' writes key '{write.key}' outside every declared " ++
        "endorsement scope"))
  | none => pure ()
  match tx.kind with
  | .policyUpdate _ => require (!tx.endorsements.isEmpty) (.invalidTransaction
      "endorsement: policy update carries no endorsement")
  | _ => pure ()
  match tx.kind with
  | .canonicalRecord _ => pure ()
  | _ => tx.endorsements.forM (evaluateCarrier X provider history tx height)
  evaluateDefault X provider tx height

end GlassChain
