import GlassChain.Core.Block
import GlassChain.Library.KeyedMap

/-!
# The in-memory indexer

Three maps answer queries: block summaries by height, transaction records by identifier, and the
identifiers of a block by height. Indexing a block overwrites what stood under its height and under
the identifiers of its transactions. Serialisation of a transaction does not fail.
-/

namespace GlassChain

open Library

structure IndexedBlock where
  index : Nat
  hash : String
  previousHash : String
  timestamp : Nat
  transactionCount : Nat
  transactionIds : List String
  deriving DecidableEq, Repr

structure IndexedTransaction where
  id : String
  blockIndex : Nat
  timestamp : Nat
  kind : String
  /-- The UTF-8 bytes of the JSON text. -/
  payloadJson : Bytes
  deriving DecidableEq, Repr

def IndexedBlock.ofBlock (b : Block) : IndexedBlock where
  index := b.index
  hash := b.hash
  previousHash := b.previousHash
  timestamp := b.timestamp
  transactionCount := b.transactions.length
  transactionIds := b.transactions.map Transaction.id

def Transaction.kindName (tx : Transaction) : String :=
  match tx.kind with
  | .supplyOffer _ => "SupplyOffer"
  | .purchaseOrder _ => "PurchaseOrder"
  | .contractCreation _ => "ContractCreation"
  | .contractExecution _ => "ContractExecution"
  | .inventoryUpdate _ => "InventoryUpdate"
  | .assetRegistration _ => "AssetRegistration"
  | .canonicalRecord _ => "CanonicalRecord"
  | .capabilityActivation _ => "CapabilityActivation"
  | .policyUpdate _ => "PolicyUpdate"

def indexedTransactionsOf (X : Externals) (block : Block) : List IndexedTransaction :=
  block.transactions.map fun tx =>
    { id := tx.id
      blockIndex := block.index
      timestamp := tx.timestamp
      kind := tx.kindName
      payloadJson := X.transactionJson tx }

structure InMemoryIndexer where
  blocks : AList fun _ : Nat => IndexedBlock
  transactions : AList fun _ : String => IndexedTransaction
  /-- Identifiers by height. -/
  blockTxIds : AList fun _ : Nat => List String

namespace InMemoryIndexer

def new : InMemoryIndexer := ⟨∅, ∅, ∅⟩

def indexBlock (X : Externals) (I : InMemoryIndexer) (block : Block) : InMemoryIndexer where
  blocks := I.blocks.insert block.index (.ofBlock block)
  blockTxIds := I.blockTxIds.insert block.index (block.transactions.map Transaction.id)
  transactions := (indexedTransactionsOf X block).foldl (fun m tx => m.insert tx.id tx)
    I.transactions

def getBlock (I : InMemoryIndexer) (index : Nat) : Option IndexedBlock := I.blocks.lookup index

def getTransaction (I : InMemoryIndexer) (id : String) : Option IndexedTransaction :=
  I.transactions.lookup id

def transactionsInBlock (I : InMemoryIndexer) (blockIndex : Nat) : List IndexedTransaction :=
  ((I.blockTxIds.lookup blockIndex).map fun ids => ids.filterMap I.transactions.lookup).getD []

def ofChain (X : Externals) (chain : List Block) : InMemoryIndexer := chain.foldl (indexBlock X) new

/-- Both answer every query alike, the genesis height apart. -/
structure SameAnswers (I J : InMemoryIndexer) : Prop where
  blocks : ∀ height ≠ 0, I.getBlock height = J.getBlock height
  transactions : ∀ id, I.getTransaction id = J.getTransaction id
  inBlock : ∀ height ≠ 0, I.transactionsInBlock height = J.transactionsInBlock height

/-- The maps agree, the genesis height apart. -/
structure Matches (I J : InMemoryIndexer) : Prop where
  blocks : ∀ height ≠ 0, I.blocks.lookup height = J.blocks.lookup height
  transactions : ∀ id, I.transactions.lookup id = J.transactions.lookup id
  ids : ∀ height ≠ 0, I.blockTxIds.lookup height = J.blockTxIds.lookup height

variable {X : Externals} {I J : InMemoryIndexer}

lemma Matches.sameAnswers (same : I.Matches J) : I.SameAnswers J where
  blocks := same.blocks
  transactions := same.transactions
  inBlock := by
    intro height later
    have lookups : I.transactions.lookup = J.transactions.lookup := funext same.transactions
    simp only [transactionsInBlock, same.ids height later, lookups]

lemma Matches.indexBlock (same : I.Matches J) (block : Block) :
    (I.indexBlock X block).Matches (J.indexBlock X block) where
  blocks height later := lookup_insert_congr (same.blocks height later)
  ids height later := lookup_insert_congr (same.ids height later)
  transactions := by
    simp only [InMemoryIndexer.indexBlock]
    generalize indexedTransactionsOf X block = records
    have agree := same.transactions
    generalize I.transactions = m, J.transactions = n at agree
    induction records generalizing m n with
    | nil => exact agree
    | cons tx rest ih => exact ih _ _ fun id => lookup_insert_congr (agree id)

lemma Matches.foldl (same : I.Matches J) (blocks : List Block) :
    (blocks.foldl (InMemoryIndexer.indexBlock X) I).Matches
      (blocks.foldl (InMemoryIndexer.indexBlock X) J) := by
  induction blocks generalizing I J with
  | nil => exact same
  | cons block rest ih => exact ih (same.indexBlock block)

/-- A genesis block without transactions need not be indexed. -/
theorem matches_ofChain {genesis : Block} {rest : List Block} (index : genesis.index = 0)
    (silent : genesis.transactions = []) :
    (rest.foldl (InMemoryIndexer.indexBlock X) new).Matches (ofChain X (genesis :: rest)) := by
  have start : new.Matches (new.indexBlock X genesis) := by
    refine ⟨fun height later => ?_, fun id => ?_, fun height later => ?_⟩
    · exact (AList.lookup_insert_ne (index ▸ later)).symm
    · simp [InMemoryIndexer.indexBlock, indexedTransactionsOf, silent]
    · exact (AList.lookup_insert_ne (index ▸ later)).symm
  exact start.foldl rest

end InMemoryIndexer

end GlassChain
