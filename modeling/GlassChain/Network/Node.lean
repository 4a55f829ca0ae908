import GlassChain.Core.LedgerPool

/-!
# The node's commit path

The part of the node's state that producing and admitting a block reads, with the functions both
paths share: the height-selected capability set, the write set of a candidate, and the endorsement
gate. The contract executor and the endorsement provider are attached by the operator.
-/

namespace GlassChain

/-- `HashMap<String, Vec<u8>>`: the derived world state. -/
abbrev WorldState := AList fun _ : String => Bytes

/-- The persistent writes of `execute_with_state`; the ephemeral output is not read here. -/
abbrev Executor := String → Bytes → WorldState → Except CoreError (List PersistentWrite)

structure CommitState where
  executor : Option Executor
  /-- The definitions of the contract engine. -/
  contracts : String → Option SmartContractDef
  worldState : WorldState
  endorsement : Option EndorsementProvider
  policies : PolicyHistory
  capabilityHistory : Option CapabilityHistory

namespace PersistentWrite

def scope (w : PersistentWrite) : String × String × String := (w.channel, w.contract, w.key)

/-- The form a write takes in a block: private values are redacted to their commitment. -/
def blockForm (X : Externals) (w : PersistentWrite) : PersistentWrite :=
  match w.op, w.visibility with
  | .set value, .pdc _ => { w with op := .set (utf8 (X.sha256 value)) }
  | _, _ => w

def stateKey (w : PersistentWrite) : String := s!"ws:{w.channel}:{w.contract}:{w.key}"

def applyToCache (cache : WorldState) (w : PersistentWrite) : WorldState :=
  match w.op with
  | .set value => cache.insert w.stateKey value
  | .delete => cache.erase w.stateKey

def scopeLe (a b : PersistentWrite) : Bool :=
  (compareLex (compareOn PersistentWrite.channel)
    (compareLex (compareOn PersistentWrite.contract) (compareOn PersistentWrite.key)) a b).isLE

/-- The checks of `canonicalize`, in order; `seen` are the scopes met so far. -/
def checkScopes : List (String × String × String) → List PersistentWrite → Except CoreError Unit
  | _, [] => .ok ()
  | seen, w :: rest => do
    require (w.channel ≠ "") (.invalidTransaction
      "persistent write: channel scope must not be empty")
    require (w.contract ≠ "") (.invalidTransaction
      "persistent write: contract scope must not be empty")
    require (w.key ≠ "") (.invalidTransaction "persistent write: key must not be empty")
    require (w.visibility ≠ .pdc "") (.invalidTransaction
      "persistent write: PDC visibility must name a collection")
    require (!seen.contains w.scope) (.invalidTransaction
      (s!"persistent write: scoped key ({w.channel}, {w.contract}, {w.key}) " ++
        "has more than one operation"))
    checkScopes (w.scope :: seen) rest

def canonicalize (writes : List PersistentWrite) : Except CoreError (List PersistentWrite) := do
  checkScopes [] writes
  return writes.mergeSort scopeLe

end PersistentWrite

/-- The writes one transaction contributes; a transaction that is no execution, or whose execution
fails, contributes none. -/
def CommitState.contribution (X : Externals) (S : CommitState) (execute : Executor)
    (tx : Transaction) : Except CoreError (List PersistentWrite) :=
  match tx.kind with
  | .contractExecution execution =>
    match (S.contracts execution.contractId).bind SmartContractDef.wasmCodeB64 with
    | none => .ok []
    | some wasmB64 => match X.base64Decode wasmB64 with
      | none => .ok []
      | some wasm =>
        match execute s!"commit:{execution.contractId}:{tx.id}" wasm S.worldState with
        | .ok writes => PersistentWrite.canonicalize writes
        | .error _ => .ok []
  | _ => .ok []

def CommitState.computeWriteSet (X : Externals) (S : CommitState)
    (transactions : List Transaction) :
    Except CoreError (List PersistentWrite × List (List PersistentWrite)) :=
  match S.executor with
  | none => .ok ([], transactions.map fun _ => [])
  | some execute => do
    let perTransaction ← transactions.mapM (S.contribution X execute)
    let canonical ← PersistentWrite.canonicalize perTransaction.flatten
    return (canonical.map (PersistentWrite.blockForm X), perTransaction)

/-- The capability set at `height`, filling the cache from the chain when it is empty. -/
def CommitState.capabilityEffectiveSet (X : Externals) (S : CommitState) (chain : List Block)
    (height : Nat) : CommitState × Except CoreError CapabilitySet :=
  match S.capabilityHistory with
  | some history => (S, .ok (history.effectiveSet X height))
  | none => match CapabilityHistory.buildFromBlocks X chain with
    | .error e => (S, .error e)
    | .ok history =>
      ({ S with capabilityHistory := some history }, .ok (history.effectiveSet X height))

def checkAggregateCoverage (block : Block) : Except CoreError Unit :=
  match block.writeSet.find? fun w =>
    !(block.transactions.any fun tx => tx.endorsements.any fun e => e.covers w) with
  | some write => .error (.invalidTransaction
      (s!"endorsement: committed write '{write.key}' on ({write.channel}, {write.contract}) " ++
        "falls outside every declared endorsement scope"))
  | none => .ok ()

/-- The gate once the capability is known to be active: policy metadata on a scratch history, every
transaction against the pre-block policies, and coverage when writes are not attributed. -/
def CommitState.evaluateBlockEndorsements (X : Externals) (S : CommitState)
    (provider : EndorsementProvider) (block : Block) (perTxWrites : List (List PersistentWrite)) :
    Except CoreError Unit := do
  (S.policies.validateBlock block).2
  (block.transactions.zipIdx).forM fun (tx, i) =>
    evaluateTransactionEndorsements X provider S.policies tx ((perTxWrites[i]?).getD []) block.index
  if perTxWrites.isEmpty then checkAggregateCoverage block

def CommitState.enforceBlockEndorsements (X : Externals) (S : CommitState) (chain : List Block)
    (block : Block) (perTxWrites : List (List PersistentWrite)) :
    CommitState × Except CoreError Unit :=
  match S.endorsement with
  | none => (S, .ok ())
  | some provider =>
    match S.capabilityEffectiveSet X chain block.index with
    | (S, .error e) => (S, .error e)
    | (S, .ok set) =>
      if set.isActive endorsementCapabilityId then
        (S, S.evaluateBlockEndorsements X provider block perTxWrites)
      else (S, .ok ())

end GlassChain
