import GlassChain.Core.Minable
import GlassChain.Network.Node

/-!
# Producing a block

`mine_async` takes the ledger's lock twice: to drain a slice of the pool, and at its end to commit
the block or to put the slice back. In between it computes the write set, runs the capability and
endorsement gates and has the block attested, and other tasks change the ledger and the state. What
it finds each time it looks is therefore part of its input.
-/

namespace GlassChain

open Ledger Option Block PolicyHistory

/-- What `mine_async` finds at each point where it takes a lock, and what the clock, the nonce
search and the vote round give it. -/
structure MiningView where
  /-- The ledger when the slice is drained. -/
  preparing : Ledger
  /-- The state when the write set is computed. -/
  executing : CommitState
  /-- State and chain at the private-data gate. -/
  gating : CommitState × List Block
  /-- State and chain at the endorsement gate. -/
  endorsing : CommitState × List Block
  /-- State and chain when the consensus engine is chosen, and whether a provider is attached. -/
  attesting : CommitState × List Block × Bool
  /-- The certificate or the error `run_vote_round` returns. -/
  voteRound : Except CoreError QuorumCertificate
  now : Nat
  clock : Nat → Nat
  fuel : Nat
  /-- The ledger at the last step: commit, restore, or an early return. -/
  finishing : Ledger

namespace MiningView

variable (X : Externals)

/-- A capability is active at `height`; an underivable history counts as inactive. -/
def capabilityActive (S : CommitState) (chain : List Block) (height : Nat) (id : String) : Bool :=
  match (S.capabilityEffectiveSet X chain height).2 with
  | .ok set => set.isActive id
  | .error _ => false

def isPrivate (w : PersistentWrite) : Bool :=
  match w.visibility with
  | .pdc _ => true
  | .pub => false

def pdcRefused (v : MiningView) (index : Nat) (writeSet : List PersistentWrite) : Bool :=
  writeSet.any isPrivate &&
    !capabilityActive X v.gating.1 v.gating.2 index pdcCapabilityId

def candidate (X : Externals) (v : MiningView) (p : Ledger.Prepared)
    (writeSet : List PersistentWrite) : Block :=
  Block.withWriteSet X v.now p.index p.transactions p.previousHash writeSet

def endorsementGate (v : MiningView) (block : Block) (perTxWrites : List (List PersistentWrite)) :
    Except CoreError Unit :=
  (v.endorsing.1.enforceBlockEndorsements X v.endorsing.2 block perTxWrites).2

/-- The vote-round driver is used: the capability is active and a provider is attached. -/
def driven (X : Externals) (v : MiningView) (index : Nat) : Bool :=
  capabilityActive X v.attesting.1 v.attesting.2.1 index bftConsensusCapabilityId &&
    v.attesting.2.2

/-- The attested block: the vote round recomputes the hash and attaches its certificate, Proof of
Work searches for a nonce. `none` while the search has not ended. -/
def attest (v : MiningView) (p : Ledger.Prepared) (block : Block) :
    Option (Except CoreError Block) :=
  if v.driven X p.index then
    match v.voteRound with
    | .ok certificate => some (.ok
        { block with hash := block.calculateHash X, certificate := some certificate })
    | .error e => some (.error e)
  else (block.mine X v.clock p.difficulty v.fuel).map .ok

/-- `mine_async` after the drain; it leaves `finishing` alone, restores the slice, or commits. -/
def finish (v : MiningView) (p : Ledger.Prepared) : Option (Ledger × Except CoreError Unit) :=
  match v.executing.computeWriteSet X p.transactions with
  | .error e => some (v.finishing, .error e)
  | .ok (writeSet, perTxWrites) =>
    if v.pdcRefused X p.index writeSet then
      some (v.finishing.restorePending p.transactions, .error (.invalidTransaction
        ("PDC-scoped writes require the 'pdc' capability to be active at the " ++
          "candidate height")))
    else
      let block := v.candidate X p writeSet
      match v.endorsementGate X block perTxWrites with
      | .error e => some (v.finishing.restorePending p.transactions, .error e)
      | .ok () =>
        (v.attest X p block).map fun attested => match attested with
          | .error e => (v.finishing, .error e)
          | .ok block => match v.finishing.commitMinedBlock X block p.previousHash with
            | (L, .error e) => (L, .error e)
            | (L, .ok _) => (L, .ok ())

/-- The ledger `mine_async` leaves, and its result. -/
def mineAsync (v : MiningView) : Option (Ledger × Except CoreError Unit) :=
  match v.preparing.prepareMining with
  | (_, .error e) => some (v.finishing, .error e)
  | (_, .ok p) => v.finish X p

def drained (v : MiningView) : List Transaction :=
  match v.preparing.prepareMining.2 with
  | .ok p => p.transactions
  | .error _ => []

/-- The block `mine_async` commits, for which it then runs the post-commit work. -/
def committed (X : Externals) (v : MiningView) : Option Block :=
  match v.preparing.prepareMining with
  | (_, .error _) => none
  | (_, .ok p) => match v.executing.computeWriteSet X p.transactions with
    | .error _ => none
    | .ok (writeSet, perTxWrites) =>
      if v.pdcRefused X p.index writeSet then none
      else match v.endorsementGate X (v.candidate X p writeSet) perTxWrites with
        | .error _ => none
        | .ok () => match v.attest X p (v.candidate X p writeSet) with
          | some (.ok block) => match (v.finishing.commitMinedBlock X block p.previousHash).2 with
            | .ok true => some block
            | _ => none
          | _ => none

end MiningView

/-- `tx` is committed or queued. -/
def Kept (L : Ledger) (tx : Transaction) : Prop :=
  tx.id ∈ chainIds L.chain ∨ tx.id ∈ txIds L.pendingTransactions

/-- The id index holds committed ids only. -/
def IdsSound (L : Ledger) : Prop :=
  ∀ ids, L.committedIds = some ids → ∀ id ∈ ids, id ∈ chainIds L.chain

namespace IdsSound

variable {L : Ledger}

lemma foldCommittedIds (sound : IdsSound L) : IdsSound L.foldCommittedIds := by
  intro ids present id mem
  rw [foldCommittedIds_chain]
  rcases known : L.committedIds with _ | old
  · obtain rfl : (chainIds L.chain).toFinset = ids := by
      simpa [Ledger.foldCommittedIds, known] using present
    simpa using mem
  · rw [foldCommittedIds_some known] at present
    obtain rfl : old ∪ (chainIds (L.chain.drop L.idsLen)).toFinset = ids := by simpa using present
    rcases Finset.mem_union.mp mem with mem | mem
    · exact sound old known id mem
    · rw [← List.take_append_drop L.idsLen L.chain, chainIds_append]
      exact List.mem_append_right _ (by simpa using mem)

lemma push (sound : IdsSound L) (block : Block) :
    IdsSound { L with chain := L.chain ++ [block] } := by
  intro ids known id mem
  rw [chainIds_append]
  exact List.mem_append_left _ (sound ids known id mem)

lemma pushCommitted (sound : IdsSound L) (block : Block) : IdsSound (L.pushCommitted block) := by
  intro ids present id mem
  obtain ⟨old, known, rfl⟩ : ∃ old, L.committedIds = some old ∧
      old ∪ (txIds block.transactions).toFinset = ids := by
    simpa [Ledger.pushCommitted] using present
  have grown : chainIds (L.pushCommitted block).chain =
      chainIds L.chain ++ txIds block.transactions := by
    simp [Ledger.pushCommitted, chainIds]
  rw [grown, List.mem_append]
  rcases Finset.mem_union.mp mem with mem | mem
  · exact .inl (sound old known id mem)
  · exact .inr (by simpa using mem)

lemma foldCapability (X : Externals) (sound : IdsSound L) : IdsSound (L.foldCapability X).1 := by
  simpa [IdsSound] using sound

lemma addTransaction (X : Externals) (sound : IdsSound L) (tx : Transaction) :
    IdsSound (L.addTransaction X tx).1 := by
  rcases addTransaction_cases X L tx with e | e | e | ⟨-, -, e⟩ <;> rw [e]
  · exact sound
  · exact sound.foldCapability X
  · exact (sound.foldCapability X).foldCommittedIds
  · exact (sound.foldCapability X).foldCommittedIds

lemma addAll (X : Externals) (sound : IdsSound L) (txs : List Transaction) :
    IdsSound (L.addAll X txs) := by
  induction txs generalizing L with
  | nil => exact sound
  | cons tx txs ih => exact ih (sound.addTransaction X tx)

lemma mem_chainIds (sound : IdsSound L) {id : String} (known : L.isCommitted id = true) :
    id ∈ chainIds L.chain := by
  cases present : L.committedIds with
  | none => simp [isCommitted, present] at known
  | some ids =>
    refine sound ids present id ?_
    simpa [isCommitted, present] using known

end IdsSound

variable {X : Externals}

/-- The id index never holds an id that is not committed, whatever is called. -/
theorem idsSound_step {s t : PoolState} {c : Call} (sound : IdsSound s.ledger)
    (step : s.step X c t) : IdsSound t.ledger := by
  cases c with
  | add tx =>
    cases step
    exact sound.addTransaction X tx
  | prepare =>
    obtain rfl | ⟨tip, -, rfl⟩ := PoolState.step_prepare_cases step
    · exact sound
    · exact sound
  | mine clock now fuel =>
    obtain ⟨r, mined, rfl⟩ := map_eq_some_iff.mp step
    rcases minePendingTransactions_cases mined with e | ⟨tip, block, -, -, e⟩ <;>
      simp only [e]
    · exact sound
    · exact IdsSound.foldCommittedIds (L := { s.ledger.drainSlice with
        chain := s.ledger.chain ++ [block] }) (IdsSound.push (L := s.ledger) sound block)
  | commit block expectedPrevHash =>
    cases step
    rcases commitMinedBlock_cases X s.ledger block expectedPrevHash with
      ⟨-, e⟩ | ⟨tip, -, ⟨-, e⟩ | ⟨h, n, -, ⟨err, e⟩ | e⟩⟩ <;> simp only [e]
    · exact sound
    · obtain ⟨pool, e⟩ := restorePending_frame s.ledger block.transactions
      rw [e]
      exact sound
    · exact sound
    · exact IdsSound.pushCommitted sound block
  | restore tx =>
    cases step
    rcases restoreTransaction_cases s.ledger tx with ⟨-, e⟩ | ⟨-, -, e⟩ <;> simp only [e]
    · exact sound
    · exact sound
  | release position =>
    cases step
    exact sound
  | appendPeer block =>
    cases step
    rcases appendPeerBlock_cases X s.ledger block with e | ⟨-, e⟩ <;> simp only [e]
    · exact sound
    · exact sound.push block
  | replace candidate =>
    cases step
    rcases tryReplaceChain_cases X s.ledger candidate with e | ⟨-, e⟩ <;> simp only [e]
    · exact sound
    · simp [IdsSound, resetIndexes]

lemma idsSound_of_reachable {s t : PoolState} (init : s.Initial X)
    (run : Library.Reaches (PoolState.step X) Library.anyStep s t) : IdsSound t.ledger := by
  refine run.invariant (I := fun s => IdsSound s.ledger) (fun _ _ _ sound _ step =>
    idsSound_step sound step) ?_
  obtain ⟨clock, fuel, difficulty, created, -⟩ := init
  obtain ⟨genesis, -, made⟩ := map_eq_some_iff.mp created
  rw [← made]
  simp [IdsSound]

section Exits

variable {X : Externals} {L : Ledger} {v : MiningView} {p : Ledger.Prepared}

lemma Kept.restorePending {tx : Transaction} (kept : Kept L tx) (txs : List Transaction) :
    Kept (L.restorePending txs) tx := by
  obtain ⟨pool, e⟩ := restorePending_frame L txs
  rw [e]
  refine kept.imp_right fun queued => ?_
  rw [txIds_append]
  exact List.mem_append_left _ queued

/-- Every restored transaction is committed or queued afterwards. -/
theorem kept_of_restorePending (sound : IdsSound L) (txs : List Transaction) :
    ∀ tx ∈ txs, Kept (L.restorePending txs) tx := by
  induction txs generalizing L with
  | nil => simp
  | cons t txs ih =>
    have unfolded : L.restorePending (t :: txs) = (L.restoreTransaction t).restorePending txs := rfl
    rw [unfolded]
    intro tx mem
    rcases restoreTransaction_cases L t with ⟨known, e⟩ | ⟨-, -, e⟩
    · rw [e]
      rcases List.mem_cons.mp mem with rfl | mem
      · refine Kept.restorePending ?_ txs
        rcases known with committed | queued
        · obtain ⟨ids, present, mem⟩ : ∃ ids, L.committedIds = some ids ∧ tx.id ∈ ids := by
            simpa [isCommitted, any_eq_true] using committed
          exact .inl (sound ids present _ mem)
        · exact .inr (isPending_iff.mp queued)
      · exact ih sound tx mem
    · rcases List.mem_cons.mp mem with rfl | mem
      · refine Kept.restorePending ?_ txs
        rw [e]
        exact .inr (by simp [txIds])
      · exact ih (by rw [e]; exact sound) tx mem

/-- The commit puts the block on the chain or its transactions back: the tip has moved, or the
commit gate lets the block through. -/
def CommitsOrRestores (X : Externals) (L : Ledger) (block : Block) (previousHash : String) : Prop :=
  ∃ tip, L.chain.getLast? = some tip ∧
    (tip.hash ≠ previousHash ∨ (L.commitGate X block).2 = .ok ())

lemma commit_keeps_iff (sound : IdsSound L) (block : Block) (previousHash : String) :
    (∀ tx ∈ block.transactions, Kept (L.commitMinedBlock X block previousHash).1 tx) ↔
      CommitsOrRestores X L block previousHash ∨ ∀ tx ∈ block.transactions, Kept L tx := by
  unfold commitMinedBlock CommitsOrRestores
  rcases last : L.chain.getLast? with _ | tip
  · simp
  by_cases moved : tip.hash ≠ previousHash
  · simp only [moved, ne_eq, not_false_eq_true, if_true]
    exact ⟨fun _ => .inl ⟨tip, rfl, .inl moved⟩, fun _ => kept_of_restorePending sound _⟩
  · obtain ⟨h, n, frame⟩ := commitGate_frame X L block
    rcases gate : L.commitGate X block with ⟨G, e | ⟨⟩⟩
    all_goals obtain rfl : G = _ := by simpa [gate] using frame
    · simp [moved, Kept]
    · have pushed : ∀ tx ∈ block.transactions, Kept (Ledger.pushCommitted
          { L with capabilityHistory := h, historyLen := n } block) tx := by
        intro tx mem
        left
        simp only [Ledger.pushCommitted, chainIds_append, List.mem_append]
        exact .inr (by simpa [chainIds, txIds] using ⟨tx, mem, rfl⟩)
      simp only [moved, if_false]
      exact ⟨fun _ => .inl ⟨tip, rfl, .inr trivial⟩, fun _ => pushed⟩

/-- The slice reaches its end: a gate hands it back, or the block is attested and the commit takes
it or hands it back. Left out are a write set that does not compute, a vote round without a
certificate, and a block the commit gate refuses. -/
def MiningView.Completes (X : Externals) (v : MiningView) (p : Ledger.Prepared) : Prop :=
  ∃ writeSet perTxWrites,
    v.executing.computeWriteSet X p.transactions = .ok (writeSet, perTxWrites) ∧
    (v.pdcRefused X p.index writeSet = true ∨
      (v.endorsementGate X (v.candidate X p writeSet) perTxWrites).isOk = false ∨
      ∃ block, v.attest X p (v.candidate X p writeSet) = some (.ok block) ∧
        CommitsOrRestores X v.finishing block p.previousHash)

/-- What attesting a block leaves alone, and what it establishes. -/
structure MiningView.AttestedFrom (X : Externals) (v : MiningView) (difficulty : Nat)
    (block b : Block) : Prop where
  index : b.index = block.index
  transactions : b.transactions = block.transactions
  writeSet : b.writeSet = block.writeSet
  previousHash : b.previousHash = block.previousHash
  valid : b.isValid X = true
  evidence : b.hasValidPow difficulty = true ∨
    b.hash = block.calculateHash X ∧ ∃ c, v.voteRound = .ok c ∧ b.certificate = some c

lemma MiningView.attest_spec {block b : Block} (done : v.attest X p block = some (.ok b)) :
    v.AttestedFrom X p.difficulty block b := by
  unfold MiningView.attest at done
  split at done
  · split at done
    · rename_i c round
      obtain rfl : _ = b := by simpa using done
      exact ⟨rfl, rfl, rfl, rfl, isValid_iff.mpr rfl, .inr ⟨rfl, c, round, rfl⟩⟩
    · cases done
  · obtain ⟨mined, found, same⟩ := map_eq_some_iff.mp done
    rw [← Except.ok.inj same]
    have spec := mine_spec found
    exact ⟨spec.index, spec.transactions, spec.writeSet, spec.previousHash, spec.valid,
      .inl spec.pow⟩

/-- After the drain, the slice is kept exactly when it reaches its end, or every drained transaction
was committed or queued again by someone else. -/
theorem MiningView.finish_keeps_iff (sound : IdsSound v.finishing) {r : Except CoreError Unit}
    (done : v.finish X p = some (L, r)) :
    (∀ tx ∈ p.transactions, Kept L tx) ↔
      v.Completes X p ∨ ∀ tx ∈ p.transactions, Kept v.finishing tx := by
  unfold MiningView.finish at done
  rcases writes : v.executing.computeWriteSet X p.transactions with e | ⟨writeSet, perTxWrites⟩
  · -- The write set does not compute: the slice is gone.
    simp only [writes] at done
    obtain ⟨rfl, -⟩ : v.finishing = L ∧ _ := by simpa using done
    simp [MiningView.Completes, writes]
  simp only [writes] at done
  by_cases refused : v.pdcRefused X p.index writeSet = true
  · simp only [refused, if_true] at done
    obtain ⟨rfl, -⟩ : v.finishing.restorePending p.transactions = L ∧ _ := by simpa using done
    have ends : v.Completes X p := ⟨writeSet, perTxWrites, writes, .inl refused⟩
    exact ⟨fun _ => .inl ends, fun _ => kept_of_restorePending sound _⟩
  simp only [refused] at done
  rcases gate : v.endorsementGate X (v.candidate X p writeSet) perTxWrites with e | ⟨⟩
  · simp only [gate] at done
    obtain ⟨rfl, -⟩ : v.finishing.restorePending p.transactions = L ∧ _ := by simpa using done
    have ends : v.Completes X p := ⟨writeSet, perTxWrites, writes, .inr (.inl (by rw [gate]; rfl))⟩
    exact ⟨fun _ => .inl ends, fun _ => kept_of_restorePending sound _⟩
  simp only [gate] at done
  obtain ⟨attested, attest, rest⟩ := map_eq_some_iff.mp done
  rcases attested with e | block
  · -- The vote round fails: the slice is gone.
    obtain ⟨rfl, -⟩ : v.finishing = L ∧ _ := by simpa using rest
    simp [MiningView.Completes, writes, refused, gate, attest, Except.isOk, Except.toBool]
  · have txs : block.transactions = p.transactions := (v.attest_spec attest).transactions
    have left : (v.finishing.commitMinedBlock X block p.previousHash).1 = L := by
      rcases commit : v.finishing.commitMinedBlock X block p.previousHash with ⟨C, e | b⟩ <;>
        simp only [commit, Prod.mk.injEq] at rest <;> exact rest.1
    have ends : v.Completes X p ↔ CommitsOrRestores X v.finishing block p.previousHash := by
      simp [MiningView.Completes, writes, refused, gate, attest, Except.isOk, Except.toBool]
    rw [ends, ← txs, ← left]
    exact commit_keeps_iff sound block p.previousHash

end Exits

/-- `mine_async` keeps what it drained exactly when the slice reaches its end, or was committed or
queued again by someone else meanwhile. -/
theorem mining_keeps_iff {v : MiningView} {s : PoolState} {flights : List Slice}
    (init : s.Initial X)
    (reachable : Library.Reaches (PoolState.step X) Library.anyStep s ⟨v.finishing, flights⟩)
    {L : Ledger} {r : Except CoreError Unit} (done : v.mineAsync X = some (L, r)) :
    (∀ tx ∈ v.drained, Kept L tx) ↔
      (∃ p, v.preparing.prepareMining.2 = .ok p ∧ v.Completes X p) ∨
        ∀ tx ∈ v.drained, Kept v.finishing tx := by
  have sound : IdsSound v.finishing := idsSound_of_reachable init reachable
  unfold MiningView.mineAsync at done
  unfold MiningView.drained
  rcases prepared : v.preparing.prepareMining with ⟨P, e | p⟩
  · simp
  · simp only [prepared] at done
    simpa using MiningView.finish_keeps_iff sound done

section Committed

variable {X : Externals} {v : MiningView} {b : Block} {L : Ledger}

/-- The way of a committed block through the gates. -/
theorem MiningView.committed_eq_some (committed : v.committed X = some b) :
    ∃ p writeSet perTxWrites, v.preparing.prepareMining.2 = .ok p ∧
      v.executing.computeWriteSet X p.transactions = .ok (writeSet, perTxWrites) ∧
      v.pdcRefused X p.index writeSet = false ∧
      v.endorsementGate X (v.candidate X p writeSet) perTxWrites = .ok () ∧
      v.attest X p (v.candidate X p writeSet) = some (.ok b) ∧
      (v.finishing.commitMinedBlock X b p.previousHash).2 = .ok true := by
  unfold MiningView.committed at committed
  rcases prepared : v.preparing.prepareMining with ⟨P, e | p⟩
  · simp [prepared] at committed
  rcases writes : v.executing.computeWriteSet X p.transactions with e | ⟨writeSet, perTxWrites⟩
  · simp [prepared, writes] at committed
  simp only [prepared, writes] at committed
  split at committed
  · cases committed
  · rename_i passes
    split at committed
    · cases committed
    · rename_i gate
      split at committed
      · rename_i block attested
        split at committed
        · rename_i appended
          cases committed
          exact ⟨p, writeSet, perTxWrites, rfl, writes, by simpa using passes, gate, attested,
            appended⟩
        · cases committed
      · cases committed

/-- A commit that reports so found the tip it expected, and appended its block; -/
theorem Ledger.commitMinedBlock_true {block : Block} {expectedPrevHash : String}
    (appended : (L.commitMinedBlock X block expectedPrevHash).2 = .ok true) :
    (L.commitMinedBlock X block expectedPrevHash).1.chain = L.chain ++ [block] ∧
      ∃ tip, L.chain.getLast? = some tip ∧ tip.hash = expectedPrevHash := by
  obtain ⟨-, run⟩ | ⟨tip, last, ⟨-, run⟩ | ⟨h, n, same, ⟨e, run⟩ | run⟩⟩ :=
    commitMinedBlock_cases X L block expectedPrevHash <;> rw [run] at appended ⊢
  · cases appended
  · cases appended
  · cases appended
  · exact ⟨rfl, tip, last, same⟩

/-- any other commit leaves the chain alone. -/
theorem Ledger.commitMinedBlock_other {block : Block} {expectedPrevHash : String}
    (other : (L.commitMinedBlock X block expectedPrevHash).2 ≠ .ok true) :
    (L.commitMinedBlock X block expectedPrevHash).1.chain = L.chain := by
  obtain ⟨-, run⟩ | ⟨tip, last, ⟨-, run⟩ | ⟨h, n, same, ⟨e, run⟩ | run⟩⟩ :=
    commitMinedBlock_cases X L block expectedPrevHash <;> rw [run] at other ⊢
  · exact restorePending_chain _
  · exact absurd rfl other

variable {r : Except CoreError Unit}

/-- `mine_async` leaves the ledger alone, hands its slice back, or tries to commit. -/
theorem MiningView.mineAsync_cases (done : v.mineAsync X = some (L, r)) :
    (v.committed X = none ∧ (L = v.finishing ∨ ∃ txs, L = v.finishing.restorePending txs)) ∨
      ∃ block previousHash, L = (v.finishing.commitMinedBlock X block previousHash).1 ∧
        v.committed X = match (v.finishing.commitMinedBlock X block previousHash).2 with
          | .ok true => some block
          | _ => none := by
  unfold MiningView.mineAsync at done
  unfold MiningView.committed
  rcases prepared : v.preparing.prepareMining with ⟨P, e | p⟩
  · simp only [prepared] at done
    cases done
    exact .inl ⟨rfl, .inl rfl⟩
  simp only [prepared] at done
  unfold MiningView.finish at done
  rcases writes : v.executing.computeWriteSet X p.transactions with e | ⟨writeSet, perTxWrites⟩
  · simp only [writes] at done ⊢
    cases done
    exact .inl ⟨trivial, .inl rfl⟩
  simp only [writes] at done ⊢
  by_cases refused : v.pdcRefused X p.index writeSet = true
  · simp only [refused, if_true] at done ⊢
    cases done
    exact .inl ⟨trivial, .inr ⟨_, rfl⟩⟩
  simp only [refused] at done ⊢
  rcases gate : v.endorsementGate X (v.candidate X p writeSet) perTxWrites with e | ⟨⟩
  · simp only [gate] at done ⊢
    cases done
    exact .inl ⟨rfl, .inr ⟨_, rfl⟩⟩
  simp only [gate] at done ⊢
  obtain ⟨attested, attest, rest⟩ := map_eq_some_iff.mp done
  rw [attest]
  rcases attested with e | block
  · cases rest
    exact .inl ⟨rfl, .inl rfl⟩
  · refine .inr ⟨block, p.previousHash, ?_, rfl⟩
    rcases commit : v.finishing.commitMinedBlock X block p.previousHash with ⟨C, e | reported⟩ <;>
      simp only [commit] at rest <;> cases rest <;> rfl

/-- `mine_async` extends the chain by the block it commits, if any. -/
theorem MiningView.mineAsync_chain (done : v.mineAsync X = some (L, r)) :
    L.chain = v.finishing.chain ++ (v.committed X).toList := by
  obtain ⟨none, rfl | ⟨txs, rfl⟩⟩ | ⟨block, previousHash, rfl, committed⟩ := mineAsync_cases done
  · simp [none]
  · simp [none]
  · rw [committed]
    rcases reported : (v.finishing.commitMinedBlock X block previousHash).2 with e | _ | _
    · simpa using commitMinedBlock_other (by rw [reported]; simp)
    · simpa using commitMinedBlock_other (by rw [reported]; simp)
    · simpa using (commitMinedBlock_true reported).1

lemma MiningView.mineAsync_difficulty (done : v.mineAsync X = some (L, r)) :
    L.difficulty = v.finishing.difficulty := by
  obtain ⟨-, rfl | ⟨txs, rfl⟩⟩ | ⟨block, previousHash, rfl, -⟩ := mineAsync_cases done
  · rfl
  · simp
  · simp

/-- A nonce search that has not ended commits nothing. -/
theorem MiningView.committed_eq_none (running : v.mineAsync X = none) : v.committed X = none := by
  refine eq_none_iff_forall_ne_some.mpr fun b committed => ?_
  obtain ⟨p, writeSet, perTxWrites, prepared, writes, passes, gate, attested, -⟩ :=
    v.committed_eq_some committed
  rcases start : v.preparing.prepareMining with ⟨P, r⟩
  obtain rfl : r = .ok p := by simpa [start] using prepared
  simp [MiningView.mineAsync, start, MiningView.finish, writes, passes, gate, attested] at running

end Committed

private def plainState : CommitState := ⟨none, fun _ => none, ∅, none, ⟨[]⟩, none⟩

/-- An undisturbed run of `mine_async` at difficulty zero, by Proof of Work. -/
private def undisturbed (L : Ledger) : MiningView where
  preparing := L
  executing := plainState
  gating := (plainState, L.chain)
  endorsing := (plainState, L.chain)
  attesting := (plainState, L.chain, false)
  voteRound := .error .emptyLedger
  now := 0
  clock := id
  fuel := 0
  finishing := L.prepareMining.1

private lemma undisturbed_attest (X : Externals) (L : Ledger) :
    (undisturbed L).attest X ⟨1, (sealedGenesis X).hash, L.slice, 0⟩
      ((sealedGenesis X).after X L.slice) = some (.ok ((sealedGenesis X).after X L.slice)) := by
  have valid := (chainsTo_iff.mp (after_chainsTo X (sealedGenesis X) L.slice)).2.2
  have resealed : ({ (sealedGenesis X).after X L.slice with
      hash := ((sealedGenesis X).after X L.slice).calculateHash X } : Block) =
      (sealedGenesis X).after X L.slice := by
    rw [← isValid_iff.mp valid]
  simp [MiningView.attest, MiningView.driven, undisturbed, mine_zero, resealed]

/-- What an undisturbed run does on the genesis chain. -/
private theorem undisturbed_mineAsync (X : Externals) (L : Ledger)
    (chain : L.chain = [sealedGenesis X]) (difficulty : L.difficulty = 0) :
    (undisturbed L).mineAsync X = some
      (match L.drainSlice.commitMinedBlock X ((sealedGenesis X).after X L.slice)
          (sealedGenesis X).hash with
        | (L, .error e) => (L, .error e)
        | (L, .ok _) => (L, .ok ())) := by
  have prepared : L.prepareMining =
      (L.drainSlice, .ok ⟨1, (sealedGenesis X).hash, L.slice, 0⟩) := by
    simp [prepareMining, chain, difficulty, sealedGenesis, genesisBlock]
  have finishing : (undisturbed L).finishing = L.drainSlice := by rw [undisturbed, prepared]
  have attest := undisturbed_attest X L
  have candidate : (undisturbed L).candidate X ⟨1, (sealedGenesis X).hash, L.slice, 0⟩ [] =
      (sealedGenesis X).after X L.slice := rfl
  have start : (undisturbed L).preparing.prepareMining = L.prepareMining := rfl
  have writes : (undisturbed L).executing.computeWriteSet X L.slice =
      .ok ([], L.slice.map fun _ => []) := rfl
  have endorsed (b : Block) (w : List (List PersistentWrite)) :
      (undisturbed L).endorsementGate X b w = .ok () := rfl
  simp only [MiningView.mineAsync, start, prepared, MiningView.finish, writes,
    MiningView.pdcRefused, List.any_nil, Bool.false_and, Bool.false_eq_true, if_false, candidate,
    endorsed, attest, map_some, finishing]

private lemma pooled_drained (X : Externals) (pool : List Transaction) :
    ∃ flights, (pooled X pool).step X .prepare
      ⟨(undisturbed (pooled X pool).ledger).finishing, flights⟩ :=
  ⟨_, rfl⟩

/-- Two admitted activations of one capability are drained together, the commit gate refuses their
block, and an undisturbed `mine_async` loses both. -/
theorem mining_loses_transactions :
    ¬ ∀ (X : Externals) (v : MiningView) (s : PoolState) (flights : List Slice) (L : Ledger)
      (r : Except CoreError Unit), s.Initial X →
      Library.Reaches (PoolState.step X) Library.anyStep s ⟨v.finishing, flights⟩ →
      v.finishing = v.preparing.prepareMining.1 → v.mineAsync X = some (L, r) →
      ∀ tx ∈ v.drained, Kept L tx := by
  intro claim
  obtain ⟨flights, prepared⟩ := pooled_drained (.plain 0)
    [activationTx (.plain 0) "t1" "pdc", activationTx (.plain 0) "t2" "pdc"]
  have run : Library.Reaches (PoolState.step (.plain 0)) Library.anyStep (freshPool (.plain 0)) _ :=
    (((Library.Reaches.refl _).tail _ trivial
      (PoolState.step_add (freshPool_add_activation _ (by decide) (by decide)))).tail _ trivial
      (PoolState.step_add (pooled_add_activation _ (by decide) (by decide) (by decide)))).tail _
      trivial prepared
  obtain ⟨L, e, refused, chain, pending⟩ := pooled_commit_refused (.plain 0) "t1" "t2" "pdc"
  have lost := claim _ _ _ _ L (.error e) (freshPool_initial _) run rfl
    ((undisturbed_mineAsync _ _ rfl rfl).trans (by
      simp only [drainSlice, slice, pooled, maxBlockTransactions] at refused ⊢
      simp [refused])) (activationTx (.plain 0) "t1" "pdc") (by
      simp [MiningView.drained, undisturbed, prepareMining, pooled, slice, maxBlockTransactions])
  simp [Kept, chain, pending, chainIds, txIds, sealedGenesis, genesisBlock] at lost

/-- An undisturbed `mine_async` commits a submitted transaction. -/
theorem mining_keeps_iff_sample : ∃ (v : MiningView) (L : Ledger) (r : Except CoreError Unit),
    v.mineAsync (.plain 0) = some (L, r) ∧ v.drained ≠ [] ∧ ∀ tx ∈ v.drained, Kept L tx := by
  have run : Library.Reaches (PoolState.step (.plain 0)) Library.anyStep (freshPool (.plain 0)) _ :=
    ((Library.Reaches.refl _).tail _ trivial (freshPool_add _ (by decide))).tail _ trivial
      (pooled_drained (.plain 0) [stockTx "a"]).choose_spec
  have done := undisturbed_mineAsync (.plain 0) (pooled (.plain 0) [stockTx "a"]).ledger rfl rfl
  have accepted : ((pooled (.plain 0) [stockTx "a"]).ledger.drainSlice.commitGate (.plain 0)
      ((sealedGenesis (.plain 0)).after (.plain 0) [stockTx "a"])).2 = .ok () := by
    simp [pooled, drainSlice, commitGate,
      foldCapability, Block.after, Block.withWriteSet, Library.runInPlace, sealedGenesis,
      genesisBlock, CapabilityHistory.validateBlock, CapabilityHistory.validateTransaction,
      stockTx, buildFromBlocks, validateBlock,
      writtenKeys, pendingUpdates]
  refine ⟨_, _, _, done, ?_, (mining_keeps_iff (freshPool_initial _) run done).mpr (.inl ?_)⟩
  · simp [MiningView.drained, undisturbed, prepareMining, pooled, slice, maxBlockTransactions]
  · exact ⟨_, rfl, [], _, rfl, .inr (.inr ⟨_, undisturbed_attest _ _, sealedGenesis _, rfl,
      .inr accepted⟩)⟩

end GlassChain
