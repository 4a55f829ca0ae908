import GlassChain.Core.CapabilityReplay
import GlassChain.Core.LedgerIndex
import GlassChain.Core.PolicyScopes

/-!
# Mining what was admitted

Admission checks a transaction alone, against the committed history. The commit gate replays the
whole block. A block of admitted transactions is therefore refused only for what two of them do
together: they activate one capability, or one changes the policy of a key that the other targets.
-/

namespace GlassChain

open Library Ledger CapabilityHistory

/-- What admission asks of a transaction for the block at `height`, where `h` is the capability
history of the chain. -/
def AdmittedAlone (X : Externals) (h : CapabilityHistory) (height : Nat) (tx : Transaction) : Prop :=
  CapabilityHistory.Admits X (h.effectiveSet X height) height h tx ∧
    ∀ u, tx.kind = .policyUpdate u → PolicyHistory.check u = .ok ()

namespace Ledger

variable {X : Externals} {L M F : Ledger} {h : CapabilityHistory} {tx : Transaction}
  {block : Block} {height : Nat}

lemma admissible_eq_ok (replayed : L.capabilityHistory = some h) :
    L.admissible X tx height = .ok () ↔ AdmittedAlone X h height tx := by
  unfold admissible AdmittedAlone CapabilityHistory.Admits validateTransaction
  cases kind : tx.kind <;> simp [replayed]

lemma admissible_congr (same : M.capabilityHistory = L.capabilityHistory) :
    M.admissible X tx height = L.admissible X tx height := by
  unfold admissible
  rw [same]

/-- A finished fold has nothing left to do, on any ledger with the same chain and index. -/
theorem foldCapability_again (folded : L.foldCapability X = (F, .ok ())) (chain : M.chain = F.chain)
    (history : M.capabilityHistory = F.capabilityHistory) (len : M.historyLen = F.historyLen) :
    M.foldCapability X = (M, .ok ()) := by
  by_cases full : M.historyLen = M.chain.length
  · exact foldCapability_of_full full
  unfold foldCapability at folded
  split at folded
  · rename_i covered
    cases folded
    exact absurd (len.trans (covered.trans (congrArg List.length chain.symm))) full
  · rcases run : runInPlace (foldBlock X) (L.capabilityHistory.getD ⟨[]⟩, L.historyLen)
      (L.chain.drop L.historyLen) with ⟨⟨h, n⟩, r⟩
    rw [run] at folded
    cases folded
    simp only at chain history len
    obtain ⟨-, count, -⟩ | ⟨_, _, _, _, _, _, _, failed, _⟩ := runInPlace_foldBlock _ run
    · rw [List.length_drop] at count
      have past : M.chain.drop M.historyLen = [] := by
        rw [List.drop_eq_nil_iff]
        grind
      rw [foldCapability, if_neg full, past]
      simp only [runInPlace_nil, history, Option.getD_some]
      rw [← history]
    · cases failed

lemma foldCapability_drainSlice : L.drainSlice.foldCapability X =
    ((L.foldCapability X).1.drainSlice, (L.foldCapability X).2) := by
  unfold foldCapability drainSlice
  simp only
  split <;> rfl

lemma mem_pending_addTransaction {t : Transaction}
    (queued : t ∈ (L.addTransaction X tx).1.pendingTransactions) :
    t ∈ L.pendingTransactions ∨ ∃ F, L.foldCapability X = (F, .ok ()) ∧
      F.admissible X t L.nextHeight = .ok () := by
  obtain ⟨M, e, run, left⟩ | ⟨-, run⟩ | ⟨folded, passed, -, -, -, run⟩ :=
    addTransaction_outcomes X L tx <;> rw [run] at queued
  · rcases left with rfl | rfl | rfl <;> exact .inl (by simpa using queued)
  · exact .inl (by simpa using queued)
  · rcases List.mem_append.mp queued with before | now
    · exact .inl before
    · obtain rfl := List.mem_singleton.mp now
      exact .inr ⟨_, Prod.ext rfl folded, passed⟩

/-- Submissions do not disturb a capability index that can be brought up to date. -/
theorem foldCapability_addTransaction (tx : Transaction)
    (folded : L.foldCapability X = (F, .ok ())) :
    ∃ G, (L.addTransaction X tx).1.foldCapability X = (G, .ok ()) ∧
      G.capabilityHistory = F.capabilityHistory := by
  rcases addTransaction_cases X L tx with e | e | e | ⟨-, -, e⟩ <;> rw [e]
  · exact ⟨F, folded, rfl⟩
  all_goals rw [folded]
  · exact ⟨_, foldCapability_again folded rfl rfl rfl, rfl⟩
  · exact ⟨_, foldCapability_again folded (by simp) (by simp) (by simp), by simp⟩
  · exact ⟨_, foldCapability_again folded (by simp) (by simp) (by simp), by simp⟩

/-- Every queued transaction is from `queue`, or passes the checks for the next block. -/
def Checked (X : Externals) (queue : List Transaction) (L : Ledger) : Prop :=
  ∀ tx ∈ L.pendingTransactions, tx ∈ queue ∨ ∃ F, L.foldCapability X = (F, .ok ()) ∧
    F.admissible X tx L.nextHeight = .ok ()

lemma Checked.addTransaction {queue : List Transaction} (checked : Checked X queue L) :
    Checked X queue (L.addTransaction X tx).1 := by
  intro t queued
  have passed : t ∈ queue ∨ ∃ F, L.foldCapability X = (F, .ok ()) ∧
      F.admissible X t L.nextHeight = .ok () := by
    rcases mem_pending_addTransaction queued with before | passed
    · exact checked t before
    · exact .inr passed
  refine passed.imp_right fun ⟨F, folded, ok⟩ => ?_
  obtain ⟨G, again, same⟩ := foldCapability_addTransaction tx folded
  refine ⟨G, again, ?_⟩
  rwa [nextHeight, addTransaction_chain, admissible_congr same]

lemma checked_addAll (txs : List Transaction) :
    Checked X L.pendingTransactions (L.addAll X txs) := by
  have run (queue : List Transaction) : ∀ (txs : List Transaction) (L : Ledger),
      Checked X queue L → Checked X queue (L.addAll X txs) := by
    intro txs
    induction txs with
    | nil => exact fun _ checked => checked
    | cons tx txs ih => exact fun L checked => ih _ checked.addTransaction
  exact run _ txs L fun _ queued => .inl queued

/-- The gate lets a block through exactly when each of its transactions would be admitted alone, no
two of them clash, and the chain's own policy updates can be replayed. -/
theorem commitGate_eq_ok_iff : (L.commitGate X block).2 = .ok () ↔
    ∃ F h, L.foldCapability X = (F, .ok ()) ∧ F.capabilityHistory = some h ∧
      (∀ tx ∈ block.transactions, AdmittedAlone X h block.index tx) ∧
      ((activationsOf block.transactions).map (·.capabilityId)).Nodup ∧
      PolicyHistory.Separate block ∧
      ∃ policies, PolicyHistory.buildFromBlocks L.chain = .ok policies := by
  have replay (h : CapabilityHistory) : (h.validateBlock X block).2 = .ok () ↔
      (∀ tx ∈ block.transactions,
        CapabilityHistory.Admits X (h.effectiveSet X block.index) block.index h tx) ∧
      ((activationsOf block.transactions).map (·.capabilityId)).Nodup := by
    constructor
    · intro ok
      obtain ⟨admits, once, -⟩ := run_eq_ok.mp (Prod.ext rfl ok)
      exact ⟨admits, once⟩
    · rintro ⟨admits, once⟩
      exact congrArg Prod.snd (run_eq_ok.mpr ⟨admits, once, rfl⟩)
  simp only [commitGate_eq_ok, replay, PolicyHistory.validateBlock_snd_eq_ok,
    PolicyHistory.mem_pendingUpdates, AdmittedAlone]
  grind

end Ledger

open Ledger in
/-- After any submissions to a ledger, a block built from the prepared slice is committed exactly
when the chain can be replayed, what was queued before them would still be admitted, and no two
transactions of the slice clash. -/
theorem prepared_slice_commits_iff (X : Externals) (L D : Ledger) (txs : List Transaction)
    (p : Prepared) (block : Block) (prepared : (L.addAll X txs).prepareMining = (D, .ok p))
    (transactions : block.transactions = p.transactions) (index : block.index = p.index) :
    (D.commitMinedBlock X block p.previousHash).2 = .ok true ↔
      ∃ F h, (L.addAll X txs).foldCapability X = (F, .ok ()) ∧ F.capabilityHistory = some h ∧
        (∀ tx ∈ p.transactions, tx ∈ L.pendingTransactions → AdmittedAlone X h p.index tx) ∧
        ((activationsOf p.transactions).map (·.capabilityId)).Nodup ∧
        PolicyHistory.Separate block ∧
        ∃ policies, PolicyHistory.buildFromBlocks L.chain = .ok policies := by
  obtain ⟨tip, last, rfl, rfl⟩ := prepareMining_eq_ok prepared
  have height : (L.addAll X txs).nextHeight = tip.index + 1 := by rw [nextHeight, last]; rfl
  have passed {F : Ledger} {h : CapabilityHistory}
      (folded : (L.addAll X txs).foldCapability X = (F, .ok ()))
      (replayed : F.capabilityHistory = some h) (tx : Transaction)
      (taken : tx ∈ (L.addAll X txs).slice) (new : tx ∉ L.pendingTransactions) :
      AdmittedAlone X h (tip.index + 1) tx := by
    obtain old | ⟨F', folded', ok⟩ := checked_addAll txs tx (List.mem_of_mem_take taken)
    · exact absurd old new
    · obtain ⟨rfl, -⟩ := Prod.mk.inj (folded.symm.trans folded')
      rw [height] at ok
      exact (admissible_eq_ok replayed).mp ok
  have chain : (L.addAll X txs).drainSlice.chain = L.chain := addAll_chain L txs
  have unmoved : (L.addAll X txs).drainSlice.chain.getLast?.map Block.hash = some tip.hash :=
    congrArg (Option.map Block.hash) last
  simp only at transactions index ⊢
  rw [commitMinedBlock_eq_ok_true, and_iff_right unmoved, commitGate_eq_ok_iff, transactions, index,
    foldCapability_drainSlice, chain]
  constructor
  · rintro ⟨_, h, folded, replayed, admitted, clear⟩
    obtain ⟨rfl, ok⟩ := Prod.mk.inj folded
    exact ⟨_, h, Prod.ext rfl ok, replayed, fun tx taken _ => admitted tx taken, clear⟩
  · rintro ⟨F, h, folded, replayed, admitted, clear⟩
    refine ⟨F.drainSlice, h, by rw [folded], replayed, fun tx taken => ?_, clear⟩
    by_cases old : tx ∈ L.pendingTransactions
    · exact admitted tx taken old
    · exact passed folded replayed tx taken old

section

variable {id id' capability : String}

/-- A single activation is admissible, so the pool takes the first one, -/
theorem freshPool_add_activation (X : Externals) (named : id ≠ "")
    (known : lookupCapability capability = some ⟨capability, 1⟩) :
    (freshPool X).ledger.addTransaction X (activationTx X id capability) =
      ((pooled X [activationTx X id capability]).ledger, .ok ()) := by
  simp [addTransaction, activationTx, freshPool, named,
    foldCapability, Library.runInPlace, foldBlock, validateBlock,
    sealedGenesis, genesisBlock, admissible, apply, nextHeight,
    check, known, require, activated, bind, Except.bind,
    foldCommittedIds, enqueue, isCommitted, isPending, chainIds, txIds,
    maxPendingTransactions, pooled]

/-- and the second: each is checked against the committed history alone. -/
theorem pooled_add_activation (X : Externals) (named : id' ≠ "") (differ : id ≠ id')
    (known : lookupCapability capability = some ⟨capability, 1⟩) :
    (pooled X [activationTx X id capability]).ledger.addTransaction X
        (activationTx X id' capability) =
      ((pooled X [activationTx X id capability, activationTx X id' capability]).ledger,
        .ok ()) := by
  simp [addTransaction, activationTx, pooled, named, differ,
    foldCapability, sealedGenesis, genesisBlock, admissible,
    apply, nextHeight, check, known, require,
    activated, bind, Except.bind, foldCommittedIds, enqueue,
    isCommitted, isPending, maxPendingTransactions]

lemma pooled_prepare (X : Externals) {pool : List Transaction}
    (small : pool.length ≤ maxBlockTransactions) : (pooled X pool).ledger.prepareMining =
      ((pooled X []).ledger, .ok ⟨1, (sealedGenesis X).hash, pool, 0⟩) := by
  simp [prepareMining, pooled, drainSlice, slice, small, sealedGenesis, genesisBlock]

/-- In one block the second activation is a repeat: the commit gate refuses the block, and the slice
is neither committed nor put back. -/
theorem pooled_commit_refused (X : Externals) (id id' capability : String) : ∃ L e,
    (pooled X []).ledger.commitMinedBlock X ((sealedGenesis X).after X
        [activationTx X id capability, activationTx X id' capability]) (sealedGenesis X).hash =
      (L, .error e) ∧ L.chain = [sealedGenesis X] ∧ L.pendingTransactions = [] := by
  have last : (pooled X []).ledger.chain.getLast? = some (sealedGenesis X) := rfl
  obtain ⟨empty, -⟩ | ⟨tip, last', ⟨moved, -⟩ | ⟨h, n, -, ⟨e, run⟩ | run⟩⟩ :=
    commitMinedBlock_cases X (pooled X []).ledger ((sealedGenesis X).after X
      [activationTx X id capability, activationTx X id' capability]) (sealedGenesis X).hash
  · cases empty
  · rw [last, Option.some.injEq] at last'
    exact absurd (congrArg Block.hash last'.symm) moved
  · exact ⟨_, e, run, rfl, rfl⟩
  · have passed := (commitMinedBlock_eq_ok_true.mp (congrArg Prod.snd run)).2
    obtain ⟨-, -, -, -, -, once, -⟩ := commitGate_eq_ok_iff.mp passed
    simp [Block.after, Block.withWriteSet, activationsOf, activationTx] at once

end

/-- Two activations of one capability are each admitted, but the block of both is refused. -/
theorem admitted_activations_not_minable :
    ¬ ∀ (X : Externals) (L M D : Ledger) (txs : List Transaction) (p : Ledger.Prepared)
      (block : Block), PoolState.Initial X ⟨L, []⟩ →
      runInPlace (Ledger.addTransaction X) L txs = (M, .ok ()) →
      M.prepareMining = (D, .ok p) → block.transactions = p.transactions → block.writeSet = [] →
      block.index = p.index → block.previousHash = p.previousHash → block.isValid X = true →
      block.hasValidPow p.difficulty = true →
      (D.commitMinedBlock X block p.previousHash).2 = .ok true := by
  intro claim
  have known : lookupCapability "pdc" = some ⟨"pdc", 1⟩ := by decide
  let txs := [activationTx (.plain 0) "t1" "pdc", activationTx (.plain 0) "t2" "pdc"]
  have accepted : runInPlace (Ledger.addTransaction (.plain 0)) (freshPool (.plain 0)).ledger txs =
      ((pooled (.plain 0) txs).ledger, .ok ()) := by
    rw [runInPlace_cons_ok (freshPool_add_activation _ (by decide) known),
      runInPlace_cons_ok (pooled_add_activation _ (by decide) (by decide) known), runInPlace_nil]
  have committed := claim (.plain 0) _ _ _ txs _ ((sealedGenesis (.plain 0)).after (.plain 0) txs)
    (freshPool_initial _) accepted (pooled_prepare _ (by decide)) rfl rfl rfl rfl
    (Block.chainsTo_iff.mp (Block.after_chainsTo _ _ _)).2.2 rfl
  obtain ⟨L, e, refused, -, -⟩ := pooled_commit_refused (.plain 0) "t1" "t2" "pdc"
  rw [refused] at committed
  cases committed

/-- One activation submitted to the fresh ledger is drained and committed. -/
theorem prepared_slice_commits_sample : ∃ (L D : Ledger) (txs : List Transaction)
    (p : Ledger.Prepared) (block : Block),
    (L.addAll (.plain 0) txs).prepareMining = (D, .ok p) ∧
      p.transactions = [activationTx (.plain 0) "t1" "pdc"] ∧
      (D.commitMinedBlock (.plain 0) block p.previousHash).2 = .ok true := by
  have known : lookupCapability "pdc" = some ⟨"pdc", 1⟩ := by decide
  let tx := activationTx (.plain 0) "t1" "pdc"
  have queued : (freshPool (.plain 0)).ledger.addAll (.plain 0) [tx] =
      (pooled (.plain 0) [tx]).ledger :=
    congrArg Prod.fst (freshPool_add_activation _ (by decide) known)
  have prepared : ((freshPool (.plain 0)).ledger.addAll (.plain 0) [tx]).prepareMining =
      ((pooled (.plain 0) []).ledger, .ok ⟨1, (sealedGenesis (.plain 0)).hash, [tx], 0⟩) := by
    rw [queued]
    exact pooled_prepare _ (by decide)
  refine ⟨_, _, [tx], _, (sealedGenesis (.plain 0)).after (.plain 0) [tx], prepared, rfl,
    (prepared_slice_commits_iff _ _ _ _ _ _ prepared rfl rfl).mpr
      ⟨(pooled (.plain 0) [tx]).ledger, ⟨[]⟩, ?_, rfl, ?_, by decide, ?_, ?_⟩⟩
  · rw [queued]
    exact foldCapability_of_full rfl
  · intro t _ old
    cases old
  · intro k written
    cases written
  · exact ⟨_, rfl⟩

end GlassChain
