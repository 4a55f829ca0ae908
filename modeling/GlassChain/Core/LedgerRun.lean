import GlassChain.Core.Ledger
import GlassChain.Library.Run

/-!
# Runs of a ledger

Every ledger operation as a labelled step, so that results range over all interleavings of calls
from `Ledger::new`. Miners hold drained slices outside the ledger's lock. A slice remembers the
chain it was drained from; the code keeps only that chain's tip hash.
-/

namespace GlassChain

open Block Ledger PolicyHistory

/-- A drained slice of the pool, not yet committed or handed back. -/
structure Slice where
  prepared : Ledger.Prepared
  drainedFrom : List Block

structure PoolState where
  ledger : Ledger
  inFlight : List Slice

namespace Slice

def ids (s : Slice) : List String := txIds s.prepared.transactions

end Slice

namespace PoolState

def inFlightIds (s : PoolState) : List String := s.inFlight.flatMap Slice.ids

end PoolState

inductive Call where
  | add (tx : Transaction)
  | prepare
  /-- `mine_pending_transactions`, with its clock readings and number of search rounds. -/
  | mine (clock : Nat → Nat) (now fuel : Nat)
  | commit (block : Block) (expectedPrevHash : String)
  | restore (tx : Transaction)
  /-- A miner lets go of the slice at this position, to restore or to drop it. -/
  | release (position : Nat)
  | appendPeer (block : Block)
  | replace (candidate : List Block)

/-- The state after a call; `none` for a nonce search that has not ended. -/
def PoolState.call (X : Externals) (s : PoolState) : Call → Option PoolState
  | .add tx => some { s with ledger := (s.ledger.addTransaction X tx).1 }
  | .prepare => match s.ledger.prepareMining with
    | (L, .ok prepared) => some ⟨L, ⟨prepared, s.ledger.chain⟩ :: s.inFlight⟩
    | (L, .error _) => some { s with ledger := L }
  | .mine clock now fuel => (s.ledger.minePendingTransactions X clock now fuel).map fun r =>
      { s with ledger := r.1 }
  | .commit block expectedPrevHash => some
      ⟨(s.ledger.commitMinedBlock X block expectedPrevHash).1,
        s.inFlight.eraseP fun slice => slice.ids == txIds block.transactions⟩
  | .restore tx => some { s with ledger := s.ledger.restoreTransaction tx }
  | .release position => some { s with inFlight := s.inFlight.eraseIdx position }
  | .appendPeer block => some { s with ledger := (s.ledger.appendPeerBlock X block).1 }
  | .replace candidate => some { s with ledger := (s.ledger.tryReplaceChain X candidate).1 }

def PoolState.step (X : Externals) (s : PoolState) (c : Call) (t : PoolState) : Prop :=
  s.call X c = some t

variable {X : Externals}

lemma PoolState.step_add {s : PoolState} {tx : Transaction} {L : Ledger}
    {r : Except CoreError Unit} (added : s.ledger.addTransaction X tx = (L, r)) :
    s.step X (.add tx) { s with ledger := L } := by
  simp [step, call, added]

lemma PoolState.step_prepare_cases {s t : PoolState} (step : s.step X .prepare t) :
    t = s ∨ ∃ tip, s.ledger.chain.getLast? = some tip ∧
      t = ⟨s.ledger.drainSlice, ⟨⟨tip.index + 1, tip.hash, s.ledger.slice, s.ledger.difficulty⟩,
        s.ledger.chain⟩ :: s.inFlight⟩ := by
  simp only [PoolState.step, call] at step
  obtain run | ⟨tip, last, run⟩ := s.ledger.prepareMining_cases <;> rw [run] at step <;>
    cases step
  · exact .inl rfl
  · exact .inr ⟨tip, last, rfl⟩

variable (X : Externals)

/-- `Ledger::new` with nothing drained. -/
def PoolState.Initial (s : PoolState) : Prop :=
  ∃ clock fuel difficulty, Ledger.new X clock fuel difficulty = some s.ledger ∧ s.inFlight = []

/-! ## Difficulty zero

Without a Proof-of-Work target the first hash will do, whatever the hash function is. -/

def sealedGenesis : Block :=
  { genesisBlock with hash := genesisBlock.calculateHash X }

/-- An unmined block on top of `tip`, at clock reading `0`. -/
def Block.after (X : Externals) (tip : Block) (txs : List Transaction) : Block :=
  Block.withWriteSet X 0 (tip.index + 1) txs tip.hash []

lemma Block.withWriteSet_chainsTo (now : Nat) (tip : Block) (txs : List Transaction)
    (writes : List PersistentWrite) :
    (withWriteSet X now (tip.index + 1) txs tip.hash writes).chainsTo X tip = .ok () := by
  simp [chainsTo_iff, withWriteSet, isValid_iff, calculateHash, content]

lemma Block.after_chainsTo (tip : Block) (txs : List Transaction) :
    (tip.after X txs).chainsTo X tip = .ok () :=
  withWriteSet_chainsTo X 0 tip txs []

lemma Block.mine_zero (clock : Nat → Nat) (fuel : Nat) (b : Block) :
    b.mine X clock 0 fuel = some { b with hash := b.calculateHash X } := by
  cases fuel <;> simp [mine, searchNonce, hasValidPow, hasLeadingZeros]

def freshPool : PoolState := ⟨⟨[sealedGenesis X], [], 0, 0, none, 0, none⟩, []⟩

lemma new_zero : Ledger.new X id 0 0 = some (freshPool X).ledger := by
  simp [new, mine_zero, freshPool, sealedGenesis]

lemma freshPool_initial : (freshPool X).Initial X := ⟨id, 0, 0, new_zero X, rfl⟩

lemma freshPool_append {X : Externals} {b : Block}
    (chains : b.chainsTo X (sealedGenesis X) = .ok ()) :
    (freshPool X).ledger.appendPeerBlock X b =
      ({ (freshPool X).ledger with chain := [sealedGenesis X, b] }, true) := by
  simp [freshPool, appendPeerBlock, extendsTip, isOk_iff.mpr chains]

def stockTx (id : String) : Transaction :=
  ⟨id, 0, .inventoryUpdate ⟨"SKU-1", "owner", 1, "restock"⟩, []⟩

lemma CapabilityHistory.validateBlock_stock (h : CapabilityHistory) (tip : Block) (id : String) :
    h.validateBlock X (tip.after X [stockTx id]) = (h, .ok ()) := by
  simp [validateBlock, Library.runInPlace, after, withWriteSet, validateTransaction, stockTx]

def sampleActivation (id : String) : CapabilityActivation :=
  ⟨id, 1, capabilityHash X id 1, 2, [⟨"governance", [1], .ed25519⟩]⟩

def activating (id : String) : Block :=
  (sealedGenesis X).after X [⟨"activate", 0, .capabilityActivation (sampleActivation X id), []⟩]

variable {id : String}

lemma CapabilityHistory.validateBlock_activating (known : lookupCapability id = some ⟨id, 1⟩) :
    validateBlock X ⟨[]⟩ (activating X id) = (⟨[sampleActivation X id]⟩, .ok ()) := by
  simp [validateBlock, Library.runInPlace, sealedGenesis, genesisBlock, activating, after,
    withWriteSet, validateTransaction, apply, check, sampleActivation, known, require,
    activated, bind, Except.bind]

lemma CapabilityHistory.effectiveSet_activation (id : String) {height : Nat}
    (reached : 2 ≤ height) :
    ((⟨[sampleActivation X id]⟩ : CapabilityHistory).effectiveSet X height).isActive id = true := by
  simp [effectiveSet, sampleActivation, reached, CapabilitySet.isActive, CapabilitySet.insert]

lemma Block.after_hash_ne {X : Externals} (injective : Function.Injective X.contentHash)
    (tip : Block) {a b : String} (differ : a ≠ b) :
    (tip.after X [stockTx a]).hash ≠ (tip.after X [stockTx b]).hash := by
  intro same
  have content := injective (show X.contentHash (tip.after X [stockTx a]).content =
    X.contentHash (tip.after X [stockTx b]).content from same)
  have ids := congrArg (fun c => c.transactions.map Transaction.id) content
  exact differ (by simpa [after, withWriteSet, Block.content, stockTx] using ids)

/-- A governance record activating `capability` at height 5. -/
def activationTx (id capability : String) : Transaction :=
  ⟨id, 0, .capabilityActivation
    ⟨capability, 1, capabilityHash X capability 1, 5, [⟨"governance", [1], .ed25519⟩]⟩, []⟩

def stockedPool (id : String) : PoolState :=
  ⟨⟨[sealedGenesis X], [stockTx id], 0, 1, some ⟨[]⟩, 1, some ∅⟩, []⟩

/-- The genesis ledger with both indexes folded and `pool` pending. -/
def pooled (pool : List Transaction) : PoolState :=
  ⟨⟨[sealedGenesis X], pool, 0, 1, some ⟨[]⟩, 1, some ∅⟩, []⟩

lemma freshPool_addTransaction (named : id ≠ "") :
    (freshPool X).ledger.addTransaction X (stockTx id) = ((stockedPool X id).ledger, .ok ()) := by
  simp [addTransaction, stockTx, named, freshPool,
    foldCapability, Library.runInPlace, foldBlock, CapabilityHistory.validateBlock,
    sealedGenesis, genesisBlock, admissible, foldCommittedIds, enqueue,
    isCommitted, isPending, chainIds, txIds, maxPendingTransactions, stockedPool]

lemma freshPool_add (named : id ≠ "") :
    (freshPool X).step X (.add (stockTx id)) (stockedPool X id) :=
  PoolState.step_add (freshPool_addTransaction X named)

def drainedPool (id : String) (pool : List Transaction) : PoolState :=
  ⟨⟨[sealedGenesis X], pool, 0, 1, some ⟨[]⟩, 1, some ∅⟩,
    [⟨⟨1, (sealedGenesis X).hash, [stockTx id], 0⟩, [sealedGenesis X]⟩]⟩

def stockBlock (id : String) : Block :=
  (sealedGenesis X).after X [stockTx id]

def minedPool (id : String) (pool : List Transaction) : PoolState :=
  ⟨⟨[sealedGenesis X, stockBlock X id], pool, 0, 2, some ⟨[]⟩, 2, some {id}⟩, []⟩

lemma stockedPool_prepare (id : String) :
    (stockedPool X id).step X .prepare (drainedPool X id []) := by
  simp [PoolState.step, PoolState.call, prepareMining, stockedPool, drainSlice,
    slice, drainedPool, sealedGenesis, genesisBlock, maxBlockTransactions]

lemma drainedPool_commitMinedBlock (id : String) (pool : List Transaction) :
    (drainedPool X id pool).ledger.commitMinedBlock X (stockBlock X id) (sealedGenesis X).hash =
      ((minedPool X id pool).ledger, .ok true) := by
  simp [drainedPool, commitMinedBlock, commitGate,
    foldCapability, stockBlock, after, withWriteSet, Library.runInPlace, sealedGenesis,
    genesisBlock, CapabilityHistory.validateBlock, CapabilityHistory.validateTransaction,
    buildFromBlocks, validateBlock, writtenKeys,
    pendingUpdates, pushCommitted, txIds, stockTx, minedPool]

lemma drainedPool_commit (id : String) (pool : List Transaction) :
    (drainedPool X id pool).step X (.commit (stockBlock X id) (sealedGenesis X).hash)
      (minedPool X id pool) := by
  rw [PoolState.step, PoolState.call, drainedPool_commitMinedBlock]
  simp [drainedPool, minedPool, stockBlock, after, withWriteSet, Slice.ids, txIds]

lemma chainIds_minedPool (id : String) (pool : List Transaction) :
    chainIds (minedPool X id pool).ledger.chain = [id] := by
  simp [minedPool, chainIds, txIds, sealedGenesis, genesisBlock, stockBlock, after,
    withWriteSet, stockTx]

/-! ## The shape of chains

Blocks are valid, numbered by their position and linked by hash, whatever the calls, as long as
miners commit blocks built on the tip they were given. -/

/-- Numbered, internally valid and linked. -/
inductive Linked (X : Externals) : List Block → Prop
  | genesis {b : Block} : b.index = 0 → b.isValid X = true → Linked X [b]
  | snoc {chain : List Block} {tip b : Block} : Linked X chain → chain.getLast? = some tip →
      b.chainsTo X tip = .ok () → Linked X (chain ++ [b])

namespace Linked

variable {X : Externals} {c c' : List Block} {t t' : Block}

lemma ne_nil (h : Linked X c) : c ≠ [] := by
  cases h <;> simp

lemma length_eq (h : Linked X c) (tip : c.getLast? = some t) : c.length = t.index + 1 := by
  induction h generalizing t with
  | genesis zero _ =>
    obtain rfl : _ = t := by simpa using tip
    simp [zero]
  | snoc _ last next ih =>
    obtain rfl : _ = t := by simpa using tip
    obtain ⟨-, number, -⟩ := chainsTo_iff.mp next
    simp [ih last, number]

lemma valid_tip (h : Linked X c) (tip : c.getLast? = some t) : t.hash = t.calculateHash X := by
  cases h with
  | genesis _ valid =>
    obtain rfl : _ = t := by simpa using tip
    exact isValid_iff.mp valid
  | snoc _ _ next =>
    obtain rfl : _ = t := by simpa using tip
    exact isValid_iff.mp (chainsTo_iff.mp next).2.2

lemma head_of (h : Linked X c) {g : Block} (first : c.head? = some g) :
    g.index = 0 ∧ g.isValid X = true := by
  induction h with
  | genesis zero valid =>
    obtain rfl : _ = g := by simpa using first
    exact ⟨zero, valid⟩
  | snoc rest _ _ ih =>
    refine ih ?_
    rwa [List.head?_append_of_ne_nil _ rest.ne_nil] at first

lemma tip_content_eq (injective : Function.Injective X.contentHash) (h : Linked X c)
    (h' : Linked X c') (tip : c.getLast? = some t) (tip' : c'.getLast? = some t')
    (same : t.hash = t'.hash) : t.content = t'.content := by
  rw [h.valid_tip tip, h'.valid_tip tip'] at same
  exact injective same

/-- With collision-free hashing the tip's hash determines the content of the whole chain. -/
theorem contents_eq (injective : Function.Injective X.contentHash) (h : Linked X c)
    (h' : Linked X c') (tip : c.getLast? = some t) (tip' : c'.getLast? = some t')
    (same : t.hash = t'.hash) : c.map Block.content = c'.map Block.content := by
  induction h generalizing c' t t' with
  | genesis zero valid =>
    have content := (genesis zero valid).tip_content_eq injective h' tip tip' same
    have size := h'.length_eq tip'
    have index := congrArg BlockContent.index content
    obtain rfl : _ = t := by simpa using tip
    simp only [Block.content, zero] at index
    cases h' with
    | genesis =>
      obtain rfl : _ = t' := by simpa using tip'
      simp [content]
    | snoc rest => simp [← index, rest.ne_nil] at size
  | snoc rest last next ih =>
    have content := (rest.snoc last next).tip_content_eq injective h' tip tip' same
    obtain rfl : _ = t := by simpa using tip
    obtain ⟨hash, number, -⟩ := chainsTo_iff.mp next
    cases h' with
    | genesis zero =>
      obtain rfl : _ = t' := by simpa using tip'
      have index := congrArg BlockContent.index content
      simp [Block.content, zero, number] at index
    | snoc rest' last' next' =>
      obtain rfl : _ = t' := by simpa using tip'
      obtain ⟨hash', -, -⟩ := chainsTo_iff.mp next'
      have previous : _ = _ := congrArg BlockContent.previousHash content
      have lower := ih rest' last last' (hash.symm.trans (previous.trans hash'))
      simp [lower, content]

/-- The checks of a candidate's later blocks link them. -/
theorem candidate {difficulty : Nat} {h : CapabilityHistory} {previous : Block} (rest : List Block)
    (start : Linked X c) (tip : c.getLast? = some previous)
    (ok : Ledger.candidateBlocksOk X difficulty h previous rest = true) :
    Linked X (c ++ rest) := by
  induction rest generalizing c h previous with
  | nil => simpa using start
  | cons b rest ih =>
    simp only [candidateBlocksOk, Bool.and_eq_true] at ok
    obtain ⟨⟨link, -⟩, later⟩ := ok
    have next : b.chainsTo X previous = .ok () := by
      rcases hb : b.chainsTo X previous with e | ⟨⟩
      · simp [hb, Except.isOk, Except.toBool] at link
      · rfl
    split at later
    · have grown := ih (start.snoc tip next) (by simp) later
      simpa using grown
    · cases later

/-- An adopted candidate is linked: its genesis is the local one. -/
theorem adopted {L : Ledger} (injective : Function.Injective X.contentHash)
    (linked : Linked X L.chain) {candidate : List Block} (adopts : L.adopts X candidate = true) :
    Linked X candidate := by
  obtain ⟨local_genesis, first⟩ : ∃ g, L.chain.head? = some g := by
    cases hc : L.chain with
    | nil => exact absurd hc linked.ne_nil
    | cons g rest => exact ⟨g, rfl⟩
  obtain ⟨zero, valid⟩ := linked.head_of first
  cases candidate with
  | nil => simp [Ledger.adopts] at adopts
  | cons genesis rest =>
    simp only [Ledger.adopts, first, Option.all_some, Bool.and_eq_true, beq_iff_eq] at adopts
    obtain ⟨-, ⟨⟨same, ok⟩, genesis_valid⟩, -⟩ := adopts
    have content : local_genesis.content = genesis.content := by
      apply injective
      rw [isValid_iff] at valid genesis_valid
      exact valid.symm.trans (same.trans genesis_valid)
    have index : genesis.index = 0 := by
      rw [← zero]
      exact (congrArg BlockContent.index content).symm
    exact Linked.candidate rest (.genesis index genesis_valid) rfl ok

end Linked

end GlassChain
