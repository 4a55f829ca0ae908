import GlassChain.Core.Capability

/-!
# The ledger

The chain, the pending pool and the two admission indexes, with every operation that changes them.
An operation returns the ledger it leaves together with its result: an error does not undo what was
written before it. `HashSet`s of transaction ids are `Finset`s. `append_peer_block` is the node's
function, but it only touches the ledger, so it is here.
-/

namespace GlassChain

open List

def maxPendingTransactions : Nat := 8000
def maxBlockTransactions : Nat := 4000

structure Ledger where
  chain : List Block
  pendingTransactions : List Transaction
  difficulty : Nat
  historyLen : Nat
  capabilityHistory : Option CapabilityHistory
  idsLen : Nat
  committedIds : Option (Finset String)

def txIds (txs : List Transaction) : List String := txs.map Transaction.id

def chainIds (chain : List Block) : List String := chain.flatMap fun b => txIds b.transactions

def genesisBlock : Block := ⟨0, 0, [], [], "0", 0, "", none⟩

namespace Ledger

/-- A new ledger; `none` while the genesis block is not mined within `fuel` rounds. -/
def new (X : Externals) (clock : Nat → Nat) (fuel difficulty : Nat) : Option Ledger :=
  (genesisBlock.mine X clock difficulty fuel).map fun genesis =>
    ⟨[genesis], [], difficulty, 0, none, 0, none⟩

def nextHeight (L : Ledger) : Nat := (L.chain.getLast?.map fun b => b.index + 1).getD 1

section

variable (X : Externals)

/-- One block of the capability fold: the watermark moves only past a block that validated. -/
def foldBlock (s : CapabilityHistory × Nat) (b : Block) :
    (CapabilityHistory × Nat) × Except CoreError Unit :=
  match s.1.validateBlock X b with
  | (h, .ok ()) => ((h, s.2 + 1), .ok ())
  | (h, .error e) => ((h, s.2), .error e)

/-- Fold `chain[history_len..]` into the capability index. -/
def foldCapability (L : Ledger) : Ledger × Except CoreError Unit :=
  if L.historyLen = L.chain.length then (L, .ok ())
  else
    match Library.runInPlace (foldBlock X) (L.capabilityHistory.getD ⟨[]⟩, L.historyLen)
      (L.chain.drop L.historyLen) with
    | ((h, n), r) => ({ L with capabilityHistory := some h, historyLen := n }, r)

/-- The committed-id set: a full scan once, block-wise after. -/
def foldCommittedIds (L : Ledger) : Ledger :=
  match L.committedIds with
  | none => { L with
      idsLen := L.chain.length
      committedIds := some (chainIds L.chain).toFinset }
  | some ids =>
    let s := (L.chain.drop L.idsLen).foldl
      (fun s b => (s.1 ∪ (txIds b.transactions).toFinset, s.2 + 1)) (ids, L.idsLen)
    { L with idsLen := s.2, committedIds := some s.1 }

def resetIndexes (L : Ledger) : Ledger :=
  { L with historyLen := 0, capabilityHistory := none, idsLen := 0, committedIds := none }

def isCommitted (L : Ledger) (id : String) : Bool := L.committedIds.any fun ids => id ∈ ids

def isPending (L : Ledger) (id : String) : Bool := L.pendingTransactions.any fun t => t.id == id

/-- The content checks `add_transaction` makes for the next height. -/
def admissible (L : Ledger) (tx : Transaction) (nextHeight : Nat) : Except CoreError Unit :=
  match tx.kind with
  | .canonicalRecord record => match L.capabilityHistory with
    | none => .error .emptyLedger
    | some history => validateRecordUnder X (history.effectiveSet X nextHeight) record
  | .capabilityActivation a => match L.capabilityHistory with
    | none => .error .emptyLedger
    | some history => (history.apply X a nextHeight).2
  | .policyUpdate update => PolicyHistory.check update
  | _ => .ok ()

/-- Queue a transaction unless its id is known or the pool is full. -/
def enqueue (L : Ledger) (tx : Transaction) : Ledger × Except CoreError Unit :=
  if L.isCommitted tx.id || L.isPending tx.id then (L, .ok ())
  else if maxPendingTransactions ≤ L.pendingTransactions.length then
    (L, .error (.invalidTransaction
      (s!"pending pool is full ({maxPendingTransactions} transactions); " ++
        "wait for the next block before resubmitting")))
  else ({ L with pendingTransactions := L.pendingTransactions ++ [tx] }, .ok ())

def addTransaction (L : Ledger) (tx : Transaction) : Ledger × Except CoreError Unit :=
  if tx.id = "" then
    (L, .error (.invalidTransaction "transaction id must not be empty"))
  else
    match L.foldCapability X with
    | (L', .error e) => (L', .error e)
    | (L', .ok ()) =>
      match L'.admissible X tx L.nextHeight with
      | .error e => (L', .error e)
      | .ok () => L'.foldCommittedIds.enqueue tx

/-- Queue transactions one by one; errors are dropped. -/
def addAll (L : Ledger) (txs : List Transaction) : Ledger :=
  txs.foldl (fun L tx => (L.addTransaction X tx).1) L

/-- Return an admitted transaction to the pool, past its bound. -/
def restoreTransaction (L : Ledger) (tx : Transaction) : Ledger :=
  if L.isCommitted tx.id then L
  else if L.isPending tx.id then L
  else { L with pendingTransactions := L.pendingTransactions ++ [tx] }

def restorePending (L : Ledger) (txs : List Transaction) : Ledger :=
  txs.foldl restoreTransaction L

def slice (L : Ledger) : List Transaction :=
  L.pendingTransactions.take (min L.pendingTransactions.length maxBlockTransactions)

def drainSlice (L : Ledger) : Ledger :=
  { L with pendingTransactions :=
      L.pendingTransactions.drop (min L.pendingTransactions.length maxBlockTransactions) }

/-- What `prepare_mining` hands to the miner. -/
structure Prepared where
  index : Nat
  previousHash : String
  transactions : List Transaction
  difficulty : Nat

def prepareMining (L : Ledger) : Ledger × Except CoreError Prepared :=
  match L.chain.getLast? with
  | none => (L, .error .emptyLedger)
  | some prev => (L.drainSlice, .ok ⟨prev.index + 1, prev.hash, L.slice, L.difficulty⟩)

/-- Mine the next slice under the caller's lock; `none` while the search has not ended. -/
def minePendingTransactions (clock : Nat → Nat) (now fuel : Nat) (L : Ledger) :
    Option (Ledger × Except CoreError Block) :=
  match L.chain.getLast? with
  | none => some (L, .error .emptyLedger)
  | some prev =>
    let block := Block.withWriteSet X now (prev.index + 1) L.slice prev.hash []
    (block.mine X clock L.difficulty fuel).map fun block =>
      (({ L.drainSlice with chain := L.chain ++ [block] }).foldCommittedIds, .ok block)

/-- Append a validated block and mark it folded; a missing id set stays missing. -/
def pushCommitted (L : Ledger) (block : Block) : Ledger :=
  let chain := L.chain ++ [block]
  { L with
    chain := chain
    historyLen := chain.length
    idsLen := if L.committedIds.isSome then chain.length else L.idsLen
    committedIds := L.committedIds.map (· ∪ (txIds block.transactions).toFinset) }

/-- The commit gate: capability replay on the live history, then policy replay. -/
def commitGate (L : Ledger) (block : Block) : Ledger × Except CoreError Unit :=
  match L.foldCapability X with
  | (L, .error e) => (L, .error e)
  | (L, .ok ()) =>
    match L.capabilityHistory with
    | none => (L, .error .emptyLedger)
    | some history =>
      match history.validateBlock X block with
      | (h, .error e) => ({ L with capabilityHistory := some h }, .error e)
      | (h, .ok ()) =>
        let L := { L with capabilityHistory := some h }
        match PolicyHistory.buildFromBlocks L.chain with
        | .error e => (L, .error e)
        | .ok policies => (L, (policies.validateBlock block).2)

def commitMinedBlock (L : Ledger) (block : Block) (expectedPrevHash : String) :
    Ledger × Except CoreError Bool :=
  match L.chain.getLast? with
  | none => (L, .error .emptyLedger)
  | some tip =>
    if tip.hash ≠ expectedPrevHash then (L.restorePending block.transactions, .ok false)
    else
      match L.commitGate X block with
      | (L, .error e) => (L, .error e)
      | (L, .ok ()) => (L.pushCommitted block, .ok true)

def extendsTip (L : Ledger) (block : Block) : Bool :=
  match L.chain.getLast? with
  | none => block.index == 0 && block.previousHash == "0"
  | some tip => (block.chainsTo X tip).isOk

def appendPeerBlock (L : Ledger) (block : Block) : Ledger × Bool :=
  if L.extendsTip X block then
    ({ L with
        pendingTransactions := L.pendingTransactions.filter fun t =>
          !(txIds block.transactions).contains t.id
        chain := L.chain ++ [block] }, true)
  else (L, false)

end

/-- Proof of Work or a structurally matching certificate. -/
def blockConsensusAdmissible (b : Block) (difficulty : Nat) : Bool :=
  b.hasValidPow difficulty ||
    b.certificate.any fun c => !c.isDegenerate && (c.validate b).isOk

/-- The loop of `validate_chain` over the blocks after `previous`. -/
def checkLinks (X : Externals) (difficulty : Nat) (previous : Block) :
    List Block → Except CoreError Unit
  | [] => .ok ()
  | b :: rest => do
    b.chainsTo X previous
    require (blockConsensusAdmissible b difficulty) (.invalidBlock
      (s!"block {b.index} does not satisfy PoW difficulty {difficulty} " ++
        "and carries no valid certificate"))
    checkLinks X difficulty b rest

def validateChain (X : Externals) (L : Ledger) : Except CoreError Unit := do
  match L.chain with
  | [] => .ok ()
  | genesis :: rest => checkLinks X L.difficulty genesis rest
  match CapabilityHistory.buildFromBlocks X L.chain with
  | .ok _ => .ok ()
  | .error e => .error (.invalidBlock s!"capability history is invalid: {e.display}")
  match L.chain with
  | [] => .ok ()
  | genesis :: _ => do
    require (genesis.isValid X) (.invalidBlock "genesis block hash is invalid")
    require (genesis.hasValidPow L.difficulty) (.invalidBlock
      "genesis block does not satisfy PoW difficulty")

def candidateBlocksOk (X : Externals) (difficulty : Nat) (h : CapabilityHistory)
    (previous : Block) : List Block → Bool
  | [] => true
  | b :: rest =>
    (b.chainsTo X previous).isOk && blockConsensusAdmissible b difficulty &&
      match h.validateBlock X b with
      | (h, .ok ()) => candidateBlocksOk X difficulty h b rest
      | (_, .error _) => false

def adopts (X : Externals) (L : Ledger) (candidate : List Block) : Bool :=
  L.chain.length < candidate.length &&
    match candidate with
    | [] => true
    | genesis :: rest =>
      L.chain.head?.all (fun g => g.hash == genesis.hash) &&
        candidateBlocksOk X L.difficulty ⟨[]⟩ genesis rest &&
        genesis.isValid X && genesis.hasValidPow L.difficulty

def tryReplaceChain (X : Externals) (L : Ledger) (candidate : List Block) : Ledger × Bool :=
  if L.adopts X candidate then ({ L with chain := candidate }.resetIndexes, true)
  else (L, false)

section Cases

variable {X : Externals} {L L' : Ledger} {tx : Transaction} {block : Block}

lemma foldCapability_of_full (full : L.historyLen = L.chain.length) :
    L.foldCapability X = (L, .ok ()) := if_pos full

lemma foldCapability_frame (X : Externals) (L : Ledger) :
    ∃ h n, (L.foldCapability X).1 = { L with capabilityHistory := h, historyLen := n } := by
  unfold foldCapability
  split
  · exact ⟨_, _, rfl⟩
  · exact ⟨_, _, rfl⟩

@[simp]
lemma foldCapability_chain : (L.foldCapability X).1.chain = L.chain := by
  obtain ⟨h, n, e⟩ := foldCapability_frame X L
  rw [e]

@[simp]
lemma foldCapability_pendingTransactions :
    (L.foldCapability X).1.pendingTransactions = L.pendingTransactions := by
  obtain ⟨h, n, e⟩ := foldCapability_frame X L
  rw [e]

@[simp]
lemma foldCapability_committedIds : (L.foldCapability X).1.committedIds = L.committedIds := by
  obtain ⟨h, n, e⟩ := foldCapability_frame X L
  rw [e]

@[simp]
lemma foldCapability_idsLen : (L.foldCapability X).1.idsLen = L.idsLen := by
  obtain ⟨h, n, e⟩ := foldCapability_frame X L
  rw [e]

@[simp]
lemma foldCapability_difficulty : (L.foldCapability X).1.difficulty = L.difficulty := by
  obtain ⟨h, n, e⟩ := foldCapability_frame X L
  rw [e]

lemma foldCommittedIds_some {ids : Finset String} (h : L.committedIds = some ids) :
    L.foldCommittedIds = { L with
      idsLen := L.idsLen + (L.chain.length - L.idsLen)
      committedIds := some (ids ∪ (chainIds (L.chain.drop L.idsLen)).toFinset) } := by
  have fold (l : List Block) (ids : Finset String) (n : Nat) :
      l.foldl (fun s b => (s.1 ∪ (txIds b.transactions).toFinset, s.2 + 1)) (ids, n) =
        (ids ∪ (chainIds l).toFinset, n + l.length) := by
    induction l generalizing ids n with
    | nil => simp [chainIds]
    | cons b l ih =>
      simp only [foldl_cons, ih, chainIds, flatMap_cons, toFinset_append,
        Finset.union_assoc, length_cons, Prod.mk.injEq, true_and]
      omega
  simp only [foldCommittedIds, h, fold, length_drop]

lemma foldCommittedIds_frame (L : Ledger) :
    ∃ n ids, L.foldCommittedIds = { L with idsLen := n, committedIds := ids } := by
  unfold foldCommittedIds
  split <;> exact ⟨_, _, rfl⟩

@[simp]
lemma foldCommittedIds_chain : L.foldCommittedIds.chain = L.chain := by
  obtain ⟨n, ids, e⟩ := foldCommittedIds_frame L
  rw [e]

@[simp]
lemma foldCommittedIds_pendingTransactions :
    L.foldCommittedIds.pendingTransactions = L.pendingTransactions := by
  obtain ⟨n, ids, e⟩ := foldCommittedIds_frame L
  rw [e]

@[simp]
lemma foldCommittedIds_historyLen : L.foldCommittedIds.historyLen = L.historyLen := by
  obtain ⟨n, ids, e⟩ := foldCommittedIds_frame L
  rw [e]

@[simp]
lemma foldCommittedIds_capabilityHistory :
    L.foldCommittedIds.capabilityHistory = L.capabilityHistory := by
  obtain ⟨n, ids, e⟩ := foldCommittedIds_frame L
  rw [e]

@[simp]
lemma foldCommittedIds_difficulty : L.foldCommittedIds.difficulty = L.difficulty := by
  obtain ⟨n, ids, e⟩ := foldCommittedIds_frame L
  rw [e]

/-- A submission fails, changing at most the indexes; or it succeeds with both indexes folded, and
queues the transaction exactly when neither the index nor the pool knew its id. -/
theorem addTransaction_outcomes (X : Externals) (L : Ledger) (tx : Transaction) :
    (∃ M e, L.addTransaction X tx = (M, .error e) ∧
      (M = L ∨ M = (L.foldCapability X).1 ∨ M = (L.foldCapability X).1.foldCommittedIds)) ∨
    (((L.foldCapability X).1.foldCommittedIds.isCommitted tx.id = true ∨
        L.isPending tx.id = true) ∧
      L.addTransaction X tx = ((L.foldCapability X).1.foldCommittedIds, .ok ())) ∨
    ((L.foldCapability X).2 = .ok () ∧
      (L.foldCapability X).1.admissible X tx L.nextHeight = .ok () ∧
      (L.foldCapability X).1.foldCommittedIds.isCommitted tx.id = false ∧
      L.isPending tx.id = false ∧ L.pendingTransactions.length < maxPendingTransactions ∧
      L.addTransaction X tx = ({ (L.foldCapability X).1.foldCommittedIds with
        pendingTransactions := L.pendingTransactions ++ [tx] }, .ok ())) := by
  have pending := foldCapability_pendingTransactions (X := X) (L := L)
  unfold addTransaction
  split
  · exact .inl ⟨_, _, rfl, .inl rfl⟩
  rcases folded : L.foldCapability X with ⟨F, e | ⟨⟩⟩ <;> rw [folded] at pending
  · exact .inl ⟨_, _, rfl, .inr (.inl rfl)⟩
  simp only at pending ⊢
  have asked : F.foldCommittedIds.isPending tx.id = L.isPending tx.id := by
    simp [isPending, pending]
  split
  · exact .inl ⟨_, _, rfl, .inr (.inl rfl)⟩
  next passed =>
  rw [enqueue, asked, foldCommittedIds_pendingTransactions, pending]
  split
  · next known => exact .inr (.inl ⟨by simpa using known, rfl⟩)
  next unknown =>
  rw [Bool.not_eq_true, Bool.or_eq_false_iff] at unknown
  split
  · exact .inl ⟨_, _, rfl, .inr (.inr rfl)⟩
  · next room =>
    exact .inr (.inr ⟨trivial, passed, unknown.1, unknown.2, Nat.lt_of_not_le room, rfl⟩)

/-- Admission leaves the ledger alone, folds one or both indexes, or also queues a transaction that
neither the index nor the pool knew. -/
theorem addTransaction_cases (X : Externals) (L : Ledger) (tx : Transaction) :
    (L.addTransaction X tx).1 = L ∨ (L.addTransaction X tx).1 = (L.foldCapability X).1 ∨
      (L.addTransaction X tx).1 = (L.foldCapability X).1.foldCommittedIds ∨
      ((L.foldCapability X).1.foldCommittedIds.isCommitted tx.id = false ∧
        L.isPending tx.id = false ∧
        (L.addTransaction X tx).1 = { (L.foldCapability X).1.foldCommittedIds with
          pendingTransactions := L.pendingTransactions ++ [tx] }) := by
  obtain ⟨M, e, run, left⟩ | ⟨-, run⟩ | ⟨-, -, unknown, not_queued, -, run⟩ :=
    addTransaction_outcomes X L tx <;> rw [run]
  · exact left.imp_right (Or.imp_right .inl)
  · exact .inr (.inr (.inl rfl))
  · exact .inr (.inr (.inr ⟨unknown, not_queued, rfl⟩))

@[simp]
lemma addTransaction_chain (L : Ledger) (tx : Transaction) :
    (L.addTransaction X tx).1.chain = L.chain := by
  rcases L.addTransaction_cases X tx with e | e | e | ⟨-, -, e⟩ <;> rw [e] <;> simp

@[simp]
lemma addAll_chain (L : Ledger) (txs : List Transaction) : (L.addAll X txs).chain = L.chain := by
  unfold addAll
  induction txs generalizing L with
  | nil => rfl
  | cons tx txs ih => rw [foldl_cons, ih, addTransaction_chain]

lemma restoreTransaction_cases (L : Ledger) (tx : Transaction) :
    (L.isCommitted tx.id = true ∨ L.isPending tx.id = true) ∧ L.restoreTransaction tx = L ∨
      L.isCommitted tx.id = false ∧ L.isPending tx.id = false ∧ L.restoreTransaction tx =
        { L with pendingTransactions := L.pendingTransactions ++ [tx] } := by
  unfold restoreTransaction
  by_cases hc : L.isCommitted tx.id = true
  · exact .inl ⟨.inl hc, by simp [hc]⟩
  · by_cases hp : L.isPending tx.id = true
    · exact .inl ⟨.inr hp, by simp [hp]⟩
    · exact .inr ⟨by simpa using hc, by simpa using hp, by simp [hc, hp]⟩

lemma restorePending_frame (L : Ledger) (txs : List Transaction) :
    ∃ pool, L.restorePending txs =
      { L with pendingTransactions := L.pendingTransactions ++ pool } := by
  induction txs generalizing L with
  | nil => exact ⟨[], by simp [restorePending]⟩
  | cons tx txs ih =>
    have unfolded : L.restorePending (tx :: txs) = (L.restoreTransaction tx).restorePending txs :=
      rfl
    obtain ⟨pool, e⟩ := ih (L.restoreTransaction tx)
    rcases restoreTransaction_cases L tx with ⟨-, same⟩ | ⟨-, -, grown⟩
    · exact ⟨pool, by rw [unfolded, e, same]⟩
    · exact ⟨tx :: pool, by rw [unfolded, e, grown]; simp⟩

@[simp]
lemma restorePending_chain (txs : List Transaction) : (L.restorePending txs).chain = L.chain := by
  obtain ⟨pool, e⟩ := restorePending_frame L txs
  rw [e]

@[simp]
lemma restorePending_difficulty (txs : List Transaction) :
    (L.restorePending txs).difficulty = L.difficulty := by
  obtain ⟨pool, e⟩ := restorePending_frame L txs
  rw [e]

lemma restorePending_fresh {txs : List Transaction}
    (unknown : ∀ tx ∈ txs, L.isCommitted tx.id = false)
    (once : (txIds (L.pendingTransactions ++ txs)).Nodup) :
    L.restorePending txs = { L with pendingTransactions := L.pendingTransactions ++ txs } := by
  induction txs generalizing L with
  | nil => simp [restorePending]
  | cons tx txs ih =>
    have not_queued : L.isPending tx.id = false := by
      simp only [txIds, map_append, map_cons, nodup_append'] at once
      simp only [isPending, any_eq_false, beq_iff_eq]
      exact fun t queued same => once.2.2 (mem_map_of_mem queued) (by simp [same])
    have first : L.restoreTransaction tx =
        { L with pendingTransactions := L.pendingTransactions ++ [tx] } := by
      simp [restoreTransaction, unknown tx mem_cons_self, not_queued]
    have rest := ih (L := L.restoreTransaction tx)
      (by rw [first]; exact fun t mem => unknown t (mem_cons_of_mem tx mem))
      (by rw [first]; simpa using once)
    have unfolded : L.restorePending (tx :: txs) = (L.restoreTransaction tx).restorePending txs :=
      rfl
    rw [unfolded, rest, first]
    simp

lemma commitGate_frame (X : Externals) (L : Ledger) (block : Block) :
    ∃ h n, (L.commitGate X block).1 = { L with capabilityHistory := h, historyLen := n } := by
  obtain ⟨h, n, frame⟩ := foldCapability_frame X L
  unfold commitGate
  rcases hf : L.foldCapability X with ⟨F, _ | ⟨⟩⟩
  all_goals obtain rfl : F = _ := by simpa [hf] using frame
  · exact ⟨h, n, rfl⟩
  · rcases h with _ | h
    · exact ⟨none, n, rfl⟩
    · rcases hv : h.validateBlock X block with ⟨g, _ | ⟨⟩⟩
      · exact ⟨some g, n, by simp [hv]⟩
      · refine ⟨some g, n, ?_⟩
        simp only [hv]
        split <;> rfl

/-- A commit restores its block's transactions on a moved tip; on an unmoved one the gate runs and
the block is pushed when the gate lets it through. -/
theorem commitMinedBlock_cases (X : Externals) (L : Ledger) (block : Block)
    (expectedPrevHash : String) :
    (L.chain = [] ∧ L.commitMinedBlock X block expectedPrevHash = (L, .error .emptyLedger)) ∨
    ∃ tip, L.chain.getLast? = some tip ∧
      ((tip.hash ≠ expectedPrevHash ∧ L.commitMinedBlock X block expectedPrevHash =
          (L.restorePending block.transactions, .ok false)) ∨
        ∃ h n, tip.hash = expectedPrevHash ∧
          ((∃ e, L.commitMinedBlock X block expectedPrevHash =
            ({ L with capabilityHistory := h, historyLen := n }, .error e)) ∨
          L.commitMinedBlock X block expectedPrevHash =
            (({ L with capabilityHistory := h, historyLen := n } : Ledger).pushCommitted block,
              .ok true))) := by
  unfold commitMinedBlock
  rcases last : L.chain.getLast? with _ | tip
  · exact .inl ⟨getLast?_eq_none_iff.mp last, rfl⟩
  refine .inr ⟨tip, rfl, ?_⟩
  by_cases moved : tip.hash ≠ expectedPrevHash
  · exact .inl ⟨moved, by simp [moved]⟩
  · obtain ⟨h, n, frame⟩ := commitGate_frame X L block
    refine .inr ⟨h, n, not_not.mp moved, ?_⟩
    rcases gate : L.commitGate X block with ⟨G, e | ⟨⟩⟩
    all_goals obtain rfl : G = _ := by simpa [gate] using frame
    · exact .inl ⟨e, by simp [moved]⟩
    · exact .inr (by simp [moved])

lemma commitGate_eq_ok : (L.commitGate X block).2 = .ok () ↔
    ∃ F h, L.foldCapability X = (F, .ok ()) ∧ F.capabilityHistory = some h ∧
      (h.validateBlock X block).2 = .ok () ∧
      ∃ policies, PolicyHistory.buildFromBlocks L.chain = .ok policies ∧
        (policies.validateBlock block).2 = .ok () := by
  have chain := foldCapability_chain (X := X) (L := L)
  unfold commitGate
  rcases folded : L.foldCapability X with ⟨F, e | ⟨⟩⟩ <;> rw [folded] at chain
  · simp
  simp only
  rcases replayed : F.capabilityHistory with _ | h
  · simp [replayed]
  simp only
  rcases validated : h.validateBlock X block with ⟨g, e | ⟨⟩⟩
  · simp [replayed, validated]
  · rw [← chain]
    cases built : PolicyHistory.buildFromBlocks F.chain <;> simp [replayed, validated]

/-- A block is committed exactly when it was built on the tip and the gate lets it through. -/
theorem commitMinedBlock_eq_ok_true {expectedPrevHash : String} :
    (L.commitMinedBlock X block expectedPrevHash).2 = .ok true ↔
      L.chain.getLast?.map Block.hash = some expectedPrevHash ∧
        (L.commitGate X block).2 = .ok () := by
  unfold commitMinedBlock
  cases L.chain.getLast? with
  | none => simp
  | some tip =>
    by_cases unmoved : tip.hash = expectedPrevHash
    · rcases L.commitGate X block with ⟨G, e | ⟨⟩⟩ <;> simp [unmoved]
    · simp [unmoved]

@[simp]
lemma commitMinedBlock_difficulty (expectedPrevHash : String) :
    (L.commitMinedBlock X block expectedPrevHash).1.difficulty = L.difficulty := by
  obtain ⟨-, run⟩ | ⟨tip, -, ⟨-, run⟩ | ⟨h, n, -, ⟨e, run⟩ | run⟩⟩ :=
    commitMinedBlock_cases X L block expectedPrevHash <;> rw [run]
  · exact restorePending_difficulty _
  · rfl

lemma slice_append_drainSlice (L : Ledger) :
    L.slice ++ L.drainSlice.pendingTransactions = L.pendingTransactions :=
  take_append_drop _ _

lemma prepareMining_cases (L : Ledger) : L.prepareMining = (L, .error .emptyLedger) ∨
    ∃ tip, L.chain.getLast? = some tip ∧
      L.prepareMining = (L.drainSlice, .ok ⟨tip.index + 1, tip.hash, L.slice, L.difficulty⟩) := by
  unfold prepareMining
  cases L.chain.getLast? with
  | none => exact .inl rfl
  | some tip => exact .inr ⟨tip, rfl, rfl⟩

lemma prepareMining_eq_ok {M : Ledger} {p : Prepared} (prepared : L.prepareMining = (M, .ok p)) :
    ∃ tip, L.chain.getLast? = some tip ∧ M = L.drainSlice ∧
      p = ⟨tip.index + 1, tip.hash, L.slice, L.difficulty⟩ := by
  obtain run | ⟨tip, last, run⟩ := prepareMining_cases L <;> rw [run] at prepared
  · cases prepared
  · obtain ⟨rfl, ok⟩ := Prod.mk.inj prepared
    exact ⟨tip, last, rfl, (Except.ok.inj ok).symm⟩

/-- Mining under the caller's lock appends the block it finds to a chain that has a tip. -/
theorem minePendingTransactions_cases {clock : Nat → Nat} {now fuel : Nat}
    {r : Ledger × Except CoreError Block}
    (mined : L.minePendingTransactions X clock now fuel = some r) :
    r.1 = L ∨ ∃ tip block, L.chain.getLast? = some tip ∧
      (Block.withWriteSet X now (tip.index + 1) L.slice tip.hash []).mine X clock L.difficulty
        fuel = some block ∧
      r.1 = ({ L.drainSlice with chain := L.chain ++ [block] }).foldCommittedIds := by
  unfold minePendingTransactions at mined
  split at mined
  · cases mined
    exact .inl rfl
  · next tip last =>
    obtain ⟨block, found, rfl⟩ := Option.map_eq_some_iff.mp mined
    exact .inr ⟨tip, block, last, found, rfl⟩

lemma appendPeerBlock_cases (X : Externals) (L : Ledger) (block : Block) :
    (L.appendPeerBlock X block).1 = L ∨ L.extendsTip X block = true ∧
      (L.appendPeerBlock X block).1 = { L with
        pendingTransactions := L.pendingTransactions.filter fun t =>
          !(txIds block.transactions).contains t.id
        chain := L.chain ++ [block] } := by
  unfold appendPeerBlock
  split
  · next h => exact .inr ⟨h, rfl⟩
  · exact .inl rfl

lemma tryReplaceChain_cases (X : Externals) (L : Ledger) (candidate : List Block) :
    (L.tryReplaceChain X candidate).1 = L ∨ L.adopts X candidate = true ∧
      (L.tryReplaceChain X candidate).1 = { L with chain := candidate }.resetIndexes := by
  unfold tryReplaceChain
  split
  · next h => exact .inr ⟨h, rfl⟩
  · exact .inl rfl

end Cases

end Ledger

end GlassChain
