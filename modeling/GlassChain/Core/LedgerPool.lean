import GlassChain.Core.LedgerIndex

/-!
# No transaction is committed twice

A transaction id lives in one place at a time: queued in the pool, drained by a miner, or committed.
The code checks a submission against the pool and the id index only, a restored transaction against
the id index as far as it was folded, and a peer's block against nothing, so the invariant needs
conditions on the calls.
-/

namespace GlassChain

open Library Ledger List Block PoolState PolicyHistory

variable {X : Externals} {L : Ledger} {flights : List Slice} {tx : Transaction}

def flightIds (flights : List Slice) : List String := flights.flatMap Slice.ids

/-- What a slice remembers is consistent: it was drained from a linked chain that held none of its
transactions, and it carries that chain's tip. -/
structure Slice.Drained (X : Externals) (s : Slice) : Prop where
  linked : Linked X s.drainedFrom
  tip : ∃ t, s.drainedFrom.getLast? = some t ∧ s.prepared.previousHash = t.hash ∧
    s.prepared.index = t.index + 1
  fresh : ∀ id ∈ s.ids, id ∉ chainIds s.drainedFrom

/-- Every id is in at most one place. -/
structure PoolInv (X : Externals) (L : Ledger) (flights : List Slice) : Prop where
  linked : Linked X L.chain
  index : IdsInv L
  committed : (chainIds L.chain).Nodup
  waiting : (txIds L.pendingTransactions ++ flightIds flights).Nodup
  queued_fresh : ∀ id ∈ txIds L.pendingTransactions, id ∉ chainIds L.chain
  drained : ∀ s ∈ flights, s.Drained X

/-- A restore cannot mistake a committed id for a lost one: the id index covers the chain, or the
ids are not committed. -/
def Restorable (L : Ledger) (ids : List String) : Prop :=
  (L.committedIds.isSome = true ∧ L.idsLen = L.chain.length) ∨ ∀ id ∈ ids, id ∉ chainIds L.chain

/-- `block` is what a miner builds from a slice: its transactions on the tip it was given. -/
structure BuiltFrom (X : Externals) (s : Slice) (block : Block) (expectedPrevHash : String) :
    Prop where
  transactions : block.transactions = s.prepared.transactions
  expected : expectedPrevHash = s.prepared.previousHash
  previousHash : block.previousHash = s.prepared.previousHash
  index : block.index = s.prepared.index
  valid : block.isValid X = true

/-- The conditions under which no call can commit an id twice. -/
def KeepsIdsUnique (X : Externals) (s : PoolState) : Call → Prop
  | .add tx => tx.id ∉ s.inFlightIds
  | .commit block expectedPrevHash =>
    (∃ slice ∈ s.inFlight, BuiltFrom X slice block expectedPrevHash) ∧
      if s.ledger.chain.getLast?.map Block.hash = some expectedPrevHash then IdsCaughtUp s.ledger
      else Restorable s.ledger (txIds block.transactions)
  | .restore tx => tx.id ∉ s.inFlightIds ∧ Restorable s.ledger [tx.id]
  | .appendPeer block => (txIds block.transactions).Nodup ∧
      ∀ id ∈ txIds block.transactions, id ∉ chainIds s.ledger.chain
  | .replace candidate => s.ledger.adopts X candidate = true →
      (chainIds candidate).Nodup ∧
        ∀ id ∈ txIds s.ledger.pendingTransactions, id ∉ chainIds candidate
  | _ => True

def PeerBlocksUnique (_ : PoolState) : Call → Prop
  | .appendPeer block => (txIds block.transactions).Nodup
  | .replace candidate => ∀ block ∈ candidate, (txIds block.transactions).Nodup
  | _ => True

lemma isPending_iff {id : String} : L.isPending id = true ↔ id ∈ txIds L.pendingTransactions := by
  simp [isPending, txIds]

lemma txIds_append (a b : List Transaction) : txIds (a ++ b) = txIds a ++ txIds b :=
  map_append

lemma slice_append_drained (L : Ledger) :
    txIds L.slice ++ txIds L.drainSlice.pendingTransactions = txIds L.pendingTransactions := by
  rw [← txIds_append, slice_append_drainSlice]

namespace PoolInv

section

variable (inv : PoolInv X L flights)

include inv

lemma with_history (h : Option CapabilityHistory) (n : Nat) :
    PoolInv X { L with capabilityHistory := h, historyLen := n } flights :=
  ⟨inv.linked, inv.index, inv.committed, inv.waiting, inv.queued_fresh, inv.drained⟩

lemma foldCapability : PoolInv X (L.foldCapability X).1 flights := by
  obtain ⟨h, n, e⟩ := foldCapability_frame X L
  rw [e]
  exact inv.with_history h n

lemma foldCommittedIds : PoolInv X L.foldCommittedIds flights :=
  ⟨by simpa using inv.linked, inv.index.foldCommittedIds, by simpa using inv.committed,
    by simpa using inv.waiting, by simpa using inv.queued_fresh, inv.drained⟩

lemma enqueue (not_queued : L.isPending tx.id = false) (not_drained : tx.id ∉ flightIds flights)
    (not_committed : tx.id ∉ chainIds L.chain) :
    PoolInv X { L with pendingTransactions := L.pendingTransactions ++ [tx] } flights := by
  have absent : tx.id ∉ txIds L.pendingTransactions := by
    rw [← isPending_iff, not_queued]
    simp
  refine ⟨inv.linked, inv.index, inv.committed, ?_, ?_, inv.drained⟩
  · have shuffled : (txIds (L.pendingTransactions ++ [tx]) ++ flightIds flights).Perm
        (tx.id :: (txIds L.pendingTransactions ++ flightIds flights)) := by
      rw [txIds_append, append_assoc]
      exact perm_middle
    rw [shuffled.nodup_iff, nodup_cons, mem_append]
    exact ⟨by simp [absent, not_drained], inv.waiting⟩
  · intro id mem
    rw [txIds_append, mem_append] at mem
    rcases mem with mem | mem
    · exact inv.queued_fresh id mem
    · obtain rfl : id = tx.id := by simpa [txIds] using mem
      exact not_committed

lemma addTransaction (free : tx.id ∉ flightIds flights) :
    PoolInv X (L.addTransaction X tx).1 flights := by
  have folded := inv.foldCapability.foldCommittedIds
  rcases addTransaction_cases X L tx with e | e | e | ⟨unknown, not_queued, e⟩ <;> rw [e]
  · exact inv
  · exact inv.foldCapability
  · exact folded
  · have covers := inv.foldCapability.index.foldCommittedIds_eq.2
    have not_committed : tx.id ∉ chainIds L.chain := by
      simpa [isCommitted, covers] using unknown
    have queued := folded.enqueue (by simpa [isPending] using not_queued) free
      (by simpa using not_committed)
    simpa using queued

lemma restoreTransaction (free : tx.id ∉ flightIds flights) (restorable : Restorable L [tx.id]) :
    PoolInv X (L.restoreTransaction tx) flights := by
  rcases restoreTransaction_cases L tx with ⟨-, e⟩ | ⟨unknown, not_queued, e⟩ <;> rw [e]
  · exact inv
  · refine inv.enqueue not_queued free ?_
    rcases restorable with ⟨present, covers⟩ | outside
    · obtain ⟨ids, known⟩ := Option.isSome_iff_exists.mp present
      obtain ⟨-, rfl⟩ := inv.index ids known
      simpa [isCommitted, known, covers] using unknown
    · exact outside tx.id (by simp)

lemma restorePending (txs : List Transaction) (free : ∀ id ∈ txIds txs, id ∉ flightIds flights)
    (restorable : Restorable L (txIds txs)) : PoolInv X (L.restorePending txs) flights := by
  induction txs generalizing L with
  | nil => exact inv
  | cons tx txs ih =>
    have first : Restorable L [tx.id] := restorable.imp_right fun outside id mem =>
      outside id (by simp at mem; simp [txIds, mem])
    have later : Restorable (L.restoreTransaction tx) (txIds txs) := by
      have rest : Restorable L (txIds txs) := restorable.imp_right fun outside id mem =>
        outside id (by simp [txIds] at mem ⊢; exact .inr mem)
      rcases restoreTransaction_cases L tx with ⟨-, e⟩ | ⟨-, -, e⟩ <;> rwa [e]
    exact ih (inv.restoreTransaction (free tx.id (by simp [txIds])) first)
      (fun id mem => free id (by simp [txIds] at mem ⊢; exact .inr mem)) later

lemma fewer_flights {fewer : List Slice} (sub : fewer.Sublist flights) : PoolInv X L fewer :=
  ⟨inv.linked, inv.index, inv.committed,
    inv.waiting.sublist ((sub.flatMap _).append_left _), inv.queued_fresh,
    fun s mem => inv.drained s (sub.subset mem)⟩

lemma drain {tip : Block} (last : L.chain.getLast? = some tip) :
    PoolInv X L.drainSlice
      (⟨⟨tip.index + 1, tip.hash, L.slice, L.difficulty⟩, L.chain⟩ :: flights) := by
  have pool := slice_append_drained L
  have sub : ∀ id, id ∈ txIds L.slice ∨ id ∈ txIds L.drainSlice.pendingTransactions →
      id ∈ txIds L.pendingTransactions := by
    intro id mem
    rw [← pool]
    exact mem_append.mpr mem
  refine ⟨inv.linked, inv.index, inv.committed, ?_, fun id mem => ?_, fun s mem => ?_⟩
  · have shuffled : (txIds L.drainSlice.pendingTransactions ++
        (txIds L.slice ++ flightIds flights)).Perm
        (txIds L.pendingTransactions ++ flightIds flights) := by
      rw [← pool, ← append_assoc]
      exact perm_append_comm.append_right _
    exact shuffled.nodup_iff.mpr inv.waiting
  · exact inv.queued_fresh id (sub id (.inr mem))
  · rcases mem_cons.mp mem with rfl | mem
    · exact ⟨inv.linked, ⟨tip, last, rfl, rfl⟩, fun id mem => inv.queued_fresh id (sub id (.inl mem))⟩
    · exact inv.drained s mem

end

/-- Appending a block whose ids are new to the chain and absent from the pool. -/
theorem append (inv : PoolInv X L flights) {tip block : Block} {pool : List Transaction}
    (last : L.chain.getLast? = some tip) (link : block.chainsTo X tip = .ok ())
    (unique : (txIds block.transactions).Nodup)
    (fresh : ∀ id ∈ txIds block.transactions, id ∉ chainIds L.chain)
    (sub : pool.Sublist L.pendingTransactions)
    (pruned : ∀ id ∈ txIds block.transactions, id ∉ txIds pool) :
    PoolInv X { L with chain := L.chain ++ [block], pendingTransactions := pool } flights := by
  have ids : chainIds (L.chain ++ [block]) = chainIds L.chain ++ txIds block.transactions := by
    simp [chainIds]
  refine ⟨inv.linked.snoc last link, inv.index.push block, ?_, ?_, ?_, inv.drained⟩
  · rw [ids, nodup_append']
    exact ⟨inv.committed, unique, fun id mem mem' => fresh id mem' mem⟩
  · exact inv.waiting.sublist ((sub.map _).append_right _)
  · intro id mem
    rw [ids, mem_append, not_or]
    exact ⟨inv.queued_fresh id ((sub.map _).subset mem), fun mem' => pruned id mem' mem⟩

/-- Mining under the lock commits the drained slice at once. -/
theorem mine (inv : PoolInv X L flights) {tip block : Block} (last : L.chain.getLast? = some tip)
    (link : block.chainsTo X tip = .ok ()) (transactions : block.transactions = L.slice) :
    PoolInv X { L.drainSlice with chain := L.chain ++ [block] } flights := by
  have pool := slice_append_drained L
  obtain ⟨queued, -, -⟩ := nodup_append'.mp inv.waiting
  rw [← pool] at queued
  obtain ⟨unique, -, apart⟩ := nodup_append'.mp queued
  refine inv.append last link (transactions ▸ unique) (fun id mem => ?_) (drop_sublist _ _)
    fun id mem => ?_
  · rw [transactions] at mem
    exact inv.queued_fresh id (pool ▸ mem_append_left _ mem)
  · rw [transactions] at mem
    exact apart mem

lemma appendPeerBlock (inv : PoolInv X L flights) {block : Block}
    (unique : (txIds block.transactions).Nodup)
    (fresh : ∀ id ∈ txIds block.transactions, id ∉ chainIds L.chain) :
    PoolInv X (L.appendPeerBlock X block).1 flights := by
  rcases appendPeerBlock_cases X L block with e | ⟨extends_tip, e⟩ <;> rw [e]
  · exact inv
  · rcases last : L.chain.getLast? with _ | tip
    · exact absurd (getLast?_eq_none_iff.mp last) inv.linked.ne_nil
    · have link : block.chainsTo X tip = .ok () := by
        rcases hb : block.chainsTo X tip with _ | ⟨⟩
        · simp [extendsTip, last, hb, Except.isOk, Except.toBool] at extends_tip
        · rfl
      refine inv.append last link unique fresh filter_sublist fun id mem kept => ?_
      simp only [txIds, mem_map, mem_filter] at kept
      obtain ⟨t, ⟨-, outside⟩, rfl⟩ := kept
      simp only [Bool.not_eq_true', contains_eq_mem, decide_eq_false_iff_not] at outside
      exact outside mem

end PoolInv

/-- A slice that leaves the flights leaves none of its ids behind. -/
theorem eraseP_free {ids : List String} {slice : Slice} (unique : (flightIds flights).Nodup)
    (mem : slice ∈ flights) (same : slice.ids = ids) :
    ∀ id ∈ ids, id ∉ flightIds (flights.eraseP fun s => s.ids == ids) := by
  obtain ⟨s, before, after, -, is_ids, split, erased⟩ :=
    exists_of_eraseP (p := fun s : Slice => s.ids == ids) mem (by simp [same])
  obtain rfl : s.ids = ids := by simpa using is_ids
  rw [erased]
  rw [split] at unique
  simp only [flightIds, flatMap_append, flatMap_cons, nodup_append'] at unique ⊢
  intro id mem gone
  rcases mem_append.mp gone with gone | gone
  · exact unique.2.2 gone (mem_append_left _ mem)
  · exact unique.2.1.2.2 mem gone

lemma chainIds_eq_of_contents {c c' : List Block}
    (same : c.map Block.content = c'.map Block.content) : chainIds c = chainIds c' := by
  have ids (c : List Block) :
      chainIds c = (c.map Block.content).flatMap fun b => txIds b.transactions := by
    simp [chainIds, flatMap_map, content]
  rw [ids, ids, same]

namespace PoolInv

/-- A block built on an unmoved tip commits ids that the chain does not hold. -/
theorem commit (injective : Function.Injective X.contentHash) (inv : PoolInv X L flights)
    {slice : Slice} {block tip : Block} {expectedPrevHash : String} (mem : slice ∈ flights)
    (built : BuiltFrom X slice block expectedPrevHash) (last : L.chain.getLast? = some tip)
    (unmoved : tip.hash = expectedPrevHash) (caughtUp : IdsCaughtUp L) :
    PoolInv X (L.pushCommitted block)
      (flights.eraseP fun s => s.ids == txIds block.transactions) := by
  obtain ⟨linked, ⟨t, drained_tip, hash, index⟩, fresh⟩ := inv.drained slice mem
  have same_hash : tip.hash = t.hash := unmoved.trans (built.expected.trans hash)
  have contents := inv.linked.contents_eq injective linked last drained_tip same_hash
  have tip_content := inv.linked.tip_content_eq injective linked last drained_tip same_hash
  have link : block.chainsTo X tip = .ok () := by
    refine chainsTo_iff.mpr ⟨?_, ?_, built.valid⟩
    · rw [built.previousHash, hash, same_hash]
    · have same_index : tip.index = t.index := congrArg BlockContent.index tip_content
      rw [built.index, index, same_index]
  have block_ids : slice.ids = txIds block.transactions := by rw [built.transactions]; rfl
  have in_flight : ∀ id ∈ txIds block.transactions, id ∈ flightIds flights := fun id hid =>
    mem_flatMap.mpr ⟨slice, mem, block_ids ▸ hid⟩
  obtain ⟨-, flights_unique, apart⟩ := nodup_append'.mp inv.waiting
  have pushed := inv.append last link
    (block_ids ▸ (nodup_flatMap.mp flights_unique).1 slice mem)
    (fun id hid => by
      rw [chainIds_eq_of_contents contents]
      exact fresh id (block_ids ▸ hid))
    (List.Sublist.refl L.pendingTransactions) (fun id hid queued => apart queued (in_flight id hid))
  have fewer := pushed.fewer_flights
    (eraseP_sublist (p := fun s : Slice => s.ids == txIds block.transactions) (l := flights))
  exact ⟨fewer.linked, inv.index.pushCommitted caughtUp, fewer.committed, fewer.waiting,
    fewer.queued_fresh, fewer.drained⟩

end PoolInv

lemma poolInv_initial {s : PoolState} (init : s.Initial X) :
    PoolInv X s.ledger s.inFlight := by
  obtain ⟨clock, fuel, difficulty, created, none_drained⟩ := init
  obtain ⟨genesis, mined, made⟩ := Option.map_eq_some_iff.mp created
  have spec := mine_spec mined
  rw [← made, none_drained]
  refine ⟨.genesis spec.index spec.valid, by simp [IdsInv], ?_, by simp [txIds, flightIds],
    by simp [txIds], by simp⟩
  simp [chainIds, spec.transactions, txIds, genesisBlock]

/-- One call keeps every id in at most one place. -/
theorem poolInv_step (injective : Function.Injective X.contentHash) {s t : PoolState} {c : Call}
    (inv : PoolInv X s.ledger s.inFlight) (keeps : KeepsIdsUnique X s c) (step : s.step X c t) :
    PoolInv X t.ledger t.inFlight := by
  cases c with
  | add tx =>
    cases step
    exact inv.addTransaction keeps
  | prepare =>
    obtain rfl | ⟨tip, last, rfl⟩ := step_prepare_cases step
    · exact inv
    · exact inv.drain last
  | mine clock now fuel =>
    obtain ⟨r, mined, rfl⟩ := Option.map_eq_some_iff.mp step
    rcases minePendingTransactions_cases mined with e | ⟨tip, block, last, found, e⟩ <;>
      simp only [e]
    · exact inv
    · have spec := mine_spec found
      have link : block.chainsTo X tip = .ok () :=
        chainsTo_iff.mpr ⟨spec.previousHash, spec.index, spec.valid⟩
      exact (inv.mine last link spec.transactions).foldCommittedIds
  | commit block expectedPrevHash =>
    cases step
    obtain ⟨⟨slice, mem, built⟩, safe⟩ := keeps
    have fewer := inv.fewer_flights (eraseP_sublist
      (p := fun s : Slice => s.ids == txIds block.transactions) (l := s.inFlight))
    rcases commitMinedBlock_cases X s.ledger block expectedPrevHash with
      ⟨-, e⟩ | ⟨tip, last, ⟨moved, e⟩ | ⟨h, n, unmoved, ⟨err, e⟩ | e⟩⟩ <;> simp only [e]
    · exact fewer
    · rw [if_neg (by simpa [last] using moved)] at safe
      have ids : slice.ids = txIds block.transactions := by rw [built.transactions]; rfl
      exact fewer.restorePending _
        (eraseP_free (nodup_append'.mp inv.waiting).2.1 mem ids) safe
    · exact fewer.with_history h n
    · rw [if_pos (by simp [last, unmoved])] at safe
      exact (inv.with_history h n).commit injective mem built last unmoved safe
  | restore tx =>
    cases step
    exact inv.restoreTransaction keeps.1 keeps.2
  | release position =>
    cases step
    exact inv.fewer_flights (eraseIdx_sublist _ _)
  | appendPeer block =>
    cases step
    exact inv.appendPeerBlock keeps.1 keeps.2
  | replace candidate =>
    cases step
    rcases tryReplaceChain_cases X s.ledger candidate with e | ⟨adopts, e⟩ <;>
      simp only [e]
    · exact inv
    · obtain ⟨unique, apart⟩ := keeps adopts
      exact ⟨inv.linked.adopted injective adopts, IdsInv.reset _, unique, inv.waiting, apart,
        inv.drained⟩

/-- Along every run whose calls meet the conditions, no id is committed twice. -/
theorem committed_ids_nodup_along_runs (injective : Function.Injective X.contentHash)
    {s t : PoolState} (init : s.Initial X)
    (run : Reaches (PoolState.step X) (KeepsIdsUnique X) s t) :
    (chainIds t.ledger.chain).Nodup :=
  (run.invariant (I := fun s => PoolInv X s.ledger s.inFlight)
    (fun _ _ _ inv keeps step => poolInv_step injective inv keeps step)
    (poolInv_initial init)).committed

lemma drainedPool_addTransaction (X : Externals) {id : String} (named : id ≠ "") :
    (drainedPool X id []).ledger.addTransaction X (stockTx id) =
      ((drainedPool X id [stockTx id]).ledger, .ok ()) := by
  simp [addTransaction, stockTx, named, drainedPool,
    foldCapability, admissible, foldCommittedIds, enqueue,
    isCommitted, isPending, maxPendingTransactions]

lemma drainedPool_add (X : Externals) {id : String} (named : id ≠ "") :
    (drainedPool X id []).step X (.add (stockTx id)) (drainedPool X id [stockTx id]) :=
  step_add (drainedPool_addTransaction X named)

/-- A submitted transaction is mined and committed once. -/
theorem committed_ids_nodup_along_runs_sample : ∃ s t : PoolState, s.Initial (.plain 0) ∧
    Reaches (PoolState.step (.plain 0)) (KeepsIdsUnique (.plain 0)) s t ∧
    chainIds t.ledger.chain = ["a"] ∧ (chainIds t.ledger.chain).Nodup := by
  have init := freshPool_initial (.plain 0)
  have built : KeepsIdsUnique (.plain 0) (drainedPool (.plain 0) "a" [])
      (.commit (stockBlock (.plain 0) "a") (sealedGenesis (.plain 0)).hash) := by
    refine ⟨⟨_, mem_singleton.mpr rfl, rfl, rfl, rfl, rfl, ?_⟩, ?_⟩
    · exact (chainsTo_iff.mp (after_chainsTo _ _ _)).2.2
    · rw [if_pos (by simp [drainedPool])]
      exact .inr rfl
  have run := (((Reaches.refl (freshPool (.plain 0))).tail (.add (stockTx "a"))
    (by simp [KeepsIdsUnique, inFlightIds, freshPool])
    (freshPool_add _ (by decide))).tail _ trivial (stockedPool_prepare _ "a")).tail _ built
    (drainedPool_commit _ "a" [])
  exact ⟨_, _, init, run, chainIds_minedPool _ "a" [],
    committed_ids_nodup_along_runs (Externals.plain_contentHash_injective 0) init run⟩

/-- The second copy of a transaction, drained and committed on top of the first. -/
private theorem minedPool_again (X : Externals) (id : String) : ∃ t u,
    (minedPool X id [stockTx id]).step X .prepare t ∧
      t.step X (.commit ((stockBlock X id).after X [stockTx id]) (stockBlock X id).hash) u ∧
      chainIds u.ledger.chain = [id, id] := by
  refine ⟨⟨⟨[sealedGenesis X, stockBlock X id], [], 0, 2, some ⟨[]⟩, 2, some {id}⟩,
      [⟨⟨2, (stockBlock X id).hash, [stockTx id], 0⟩, [sealedGenesis X, stockBlock X id]⟩]⟩,
    ⟨⟨[sealedGenesis X, stockBlock X id, (stockBlock X id).after X [stockTx id]], [], 0, 3,
      some ⟨[]⟩, 3, some {id}⟩, []⟩, ?_, ?_, ?_⟩
  · simp [step, call, prepareMining, minedPool, drainSlice,
      slice, sealedGenesis, genesisBlock, stockBlock, Block.after, withWriteSet,
      maxBlockTransactions]
  · simp [step, call, commitMinedBlock, commitGate,
      foldCapability, stockBlock, Block.after, withWriteSet, runInPlace,
      sealedGenesis, genesisBlock, CapabilityHistory.validateBlock,
      CapabilityHistory.validateTransaction, buildFromBlocks,
      validateBlock, writtenKeys, pendingUpdates,
      pushCommitted, txIds, stockTx, Slice.ids]
  · simp [chainIds, txIds, sealedGenesis, genesisBlock, stockBlock, Block.after,
      withWriteSet, stockTx]

/-- Submit, drain, resubmit, commit, drain, commit: one id, committed twice, with no peer at all and
collision-free hashes. -/
theorem committed_ids_repeat :
    ¬ ∀ (X : Externals) (s t : PoolState), Function.Injective X.contentHash → s.Initial X →
      Reaches (PoolState.step X) PeerBlocksUnique s t → (chainIds t.ledger.chain).Nodup := by
  intro claim
  obtain ⟨t, u, prepared, committed, ids⟩ := minedPool_again (.plain 0) "a"
  have run : Reaches (PoolState.step (.plain 0)) PeerBlocksUnique (freshPool (.plain 0)) u :=
    ((((((Reaches.refl _).tail _ trivial (freshPool_add _ (by decide))).tail _ trivial
      (stockedPool_prepare _ "a")).tail _ trivial (drainedPool_add _ (by decide))).tail _ trivial
      (drainedPool_commit _ "a" _)).tail _ trivial prepared).tail _ (by trivial) committed
  have unique := claim _ _ _ (Externals.plain_contentHash_injective 0) (freshPool_initial _) run
  simp [ids] at unique

end GlassChain
