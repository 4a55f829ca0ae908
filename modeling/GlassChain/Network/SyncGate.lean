import GlassChain.Network.FullRules
import GlassChain.Network.WriteCoverage
import GlassChain.Network.WriteForm

/-!
# The live gate and the sync gate

A node that is online admits a block with `enforce_block_endorsements`, which returns early while
the capability is inactive. A node that syncs folds `enforce_chain_endorsements` over the whole
chain; its capability and policy replays run on every block, active or not.
-/

namespace GlassChain

open Library List CapabilityHistory PersistentWrite CommitState
open Timeline (policyBlock)
open MiningView (capabilityActive)

variable {X : Externals} {provider : EndorsementProvider} {chain : List Block} {block : Block}

/-- The live gate admits a block, with caches of the chain before it: from a peer, without
attributed writes, or from the local miner, with those its write set was computed from. -/
def AdmittedLive (X : Externals) (provider : EndorsementProvider) (chain : List Block)
    (block : Block) : Prop :=
  ∃ (S : CommitState) (writes : List (List PersistentWrite)), S.endorsement = some provider ∧
    S.capabilityHistory = some (replayed X chain).1 ∧ S.policies = (replayed X chain).2 ∧
    (writes = [] ∨ S.computeWriteSet X block.transactions = .ok (block.writeSet, writes)) ∧
    (S.enforceBlockEndorsements X chain block writes).2 = .ok ()

/-- Chains whose blocks after genesis were each admitted live. -/
inductive GrownLive (X : Externals) (provider : EndorsementProvider) : List Block → Prop
  | genesis {block : Block} (silent : block.transactions = []) : GrownLive X provider [block]
  | next {chain : List Block} {block : Block} (grown : GrownLive X provider chain)
      (admitted : AdmittedLive X provider chain block) : GrownLive X provider (chain ++ [block])

/-- A transaction of a block at some height leaves the capabilities at that height alone: an
activation lies in the future. -/
theorem CapabilityHistory.effectiveSet_validateTransaction (set : CapabilitySet) (height : Nat)
    (h : CapabilityHistory) (tx : Transaction) :
    (validateTransaction X set height h tx).1.effectiveSet X height = h.effectiveSet X height := by
  unfold validateTransaction
  split
  · rfl
  · next a _ =>
    unfold apply
    split
    · next checked =>
      have future : height < a.activationHeight := by
        unfold check at checked
        split at checked
        · cases checked
        · simp only [bind_eq_ok, require_eq_ok] at checked
          grind
      simp [effectiveSet, Nat.not_le.mpr future]
    · rfl
  · rfl

lemma CapabilityHistory.effectiveSet_validateBlock (h : CapabilityHistory) (block : Block) :
    (h.validateBlock X block).1.effectiveSet X block.index = h.effectiveSet X block.index := by
  unfold validateBlock
  refine runInPlace_invariant
    (I := fun g : CapabilityHistory => g.effectiveSet X block.index = h.effectiveSet X block.index)
    ?_ _ rfl
  intro g tx same
  rw [effectiveSet_validateTransaction, same]

/-- So both gates ask about the same capability set. -/
theorem activeFor_eq (replay : CapabilityHistory × PolicyHistory) (block : Block) :
    activeFor X replay block =
      (replay.1.effectiveSet X block.index).isActive endorsementCapabilityId := by
  unfold activeFor
  rw [effectiveSet_validateBlock]

lemma covers_blockForm {e : TransactionEndorsement} {w : PersistentWrite}
    (covers : e.covers w = true) : e.covers (w.blockForm X) = true := by
  obtain ⟨op, same⟩ := blockForm_eq (X := X) w
  rw [same]
  exact covers_iff.mpr (covers_iff.mp covers)

lemma length_of_mapM {α β : Type} {f : α → Except CoreError β} {l : List α} {r : List β}
    (mapped : l.mapM f = .ok r) : r.length = l.length := by
  induction l generalizing r with
  | nil =>
    obtain rfl : [] = r := by simpa [pure, Except.pure] using mapped
    rfl
  | cons a l ih =>
    simp only [mapM_cons, bind_eq_ok, pure, Except.pure, Except.ok.injEq] at mapped
    obtain ⟨b, -, rest, mapped, rfl⟩ := mapped
    simp [ih mapped]

variable {writes : List (List PersistentWrite)}

/-- A mined block's writes are those attributed to its transactions, in block form. -/
theorem mem_writeSet {S : CommitState} {writeSet : List PersistentWrite} {txs : List Transaction}
    {w : PersistentWrite} (computed : S.computeWriteSet X txs = .ok (writeSet, writes))
    (written : w ∈ writeSet) :
    ∃ tx i, (tx, i) ∈ txs.zipIdx ∧ ∃ v : PersistentWrite, v ∈ (writes[i]?).getD [] ∧
      w = v.blockForm X := by
  unfold computeWriteSet at computed
  cases executor : S.executor with
  | none =>
    simp only [executor, Except.ok.injEq, Prod.mk.injEq] at computed
    simp [← computed.1] at written
  | some execute =>
    simp only [executor, bind_eq_ok, pure, Except.pure, Except.ok.injEq, Prod.mk.injEq] at computed
    obtain ⟨perTx, mapped, canonical, sorted, rfl, rfl⟩ := computed
    obtain ⟨v, listed, rfl⟩ := mem_map.mp written
    obtain ⟨-, rfl⟩ := canonicalize_eq_ok.mp sorted
    have attributed : v ∈ perTx.flatten := (mergeSort_perm _ _).mem_iff.mp listed
    obtain ⟨own, present, member⟩ := mem_flatten.mp attributed
    obtain ⟨i, small, rfl⟩ := mem_iff_getElem.mp present
    have inside : i < txs.length := by rwa [length_of_mapM mapped] at small
    refine ⟨txs[i], i, mk_mem_zipIdx_iff_getElem?.mpr (by simp [inside]), v, ?_, rfl⟩
    simpa [small] using member

/-- A block with attributed writes that passes also passes the check without attribution. -/
theorem blockPasses_of_evaluate {S₀ S : CommitState} (attributed : writes = [] ∨
      S₀.computeWriteSet X block.transactions = .ok (block.writeSet, writes))
    (passed : S.evaluateBlockEndorsements X provider block writes = .ok ()) :
    (S.policies.validateBlock block).2 = .ok () ∧ BlockPasses X provider S.policies block := by
  rcases attributed with rfl | computed
  · exact evaluateBlockEndorsements_eq_ok.mp passed
  unfold evaluateBlockEndorsements at passed
  rw [seq_eq_ok, forM_eq_forM, seq_eq_ok, forM_eq_ok] at passed
  obtain ⟨policy, transactions, -⟩ := passed
  refine ⟨policy, fun tx member => ?_, fun w written => ?_⟩
  · obtain ⟨i, small, rfl⟩ := mem_iff_getElem.mp member
    have evaluated := transactions (block.transactions[i], i)
      (mk_mem_zipIdx_iff_getElem?.mpr (by simp))
    obtain ⟨-, rest⟩ := evaluateTransactionEndorsements_eq_ok.mp evaluated
    exact evaluateTransactionEndorsements_eq_ok.mpr ⟨by simp, rest⟩
  · obtain ⟨tx, i, placed, v, own, rfl⟩ := mem_writeSet computed written
    obtain ⟨covered, -⟩ := evaluateTransactionEndorsements_eq_ok.mp (transactions (tx, i) placed)
    obtain ⟨e, carrier, covers⟩ := covered v own
    exact ⟨tx, fst_mem_of_mem_zipIdx placed, e, carrier, covers_blockForm covers⟩

/-- A block built from a computed write set that passes the miner's gate, with the contributions it
was computed from, passes the gate of any peer with the same provider and caches, without them. -/
theorem peer_gate_accepts_mined (X : Externals) {S₀ S P : CommitState}
    {provider : EndorsementProvider} {chain : List Block} {block : Block}
    {writes : List (List PersistentWrite)}
    (computed : S₀.computeWriteSet X block.transactions = .ok (block.writeSet, writes))
    (attached : S.endorsement = some provider)
    (passed : (S.enforceBlockEndorsements X chain block writes).2 = .ok ())
    (same : P.endorsement = S.endorsement ∧ P.policies = S.policies ∧
      P.capabilityHistory = S.capabilityHistory) :
    (P.enforceBlockEndorsements X chain block []).2 = .ok () := by
  obtain ⟨own, policies, history⟩ := same
  have miner : S = { S with endorsement := some provider } := by rw [← attached]
  have peer : P = { P with endorsement := some provider } := by rw [← own.trans attached]
  rw [miner] at passed
  rw [peer]
  obtain ⟨set, found, evaluated⟩ := enforceBlockEndorsements_eq_ok.mp passed
  refine enforceBlockEndorsements_eq_ok.mpr ⟨set, ?_, fun active => ?_⟩
  · rw [← found]
    simp only [gateSet, capabilityEffectiveSet, history]
    cases S.capabilityHistory with
    | some _ => rfl
    | none => cases buildFromBlocks X chain <;> rfl
  · rw [evaluateBlockEndorsements_eq_ok, policies]
    exact blockPasses_of_evaluate (.inr computed) (evaluated active)

/-- A run of a contract that writes a private value, with a carrier over the key. -/
def carriedTx : Transaction :=
  { runTx with endorsements := [⟨⟨"main", "notes", ["b"], some "secrets"⟩, []⟩] }

def enforcingMiner (X : Externals) : CommitState :=
  ⟨some fun _ _ _ => .ok [secret],
    fun _ => some ⟨"c", "", "", ⟨0, 0, 0, 0, none, "", false⟩, some ""⟩, ∅,
    some fun _ _ _ => .ok true, ⟨[]⟩, some ⟨[sampleActivation X endorsementCapabilityId]⟩⟩

/-- The peer has neither the executor nor the contract. -/
theorem peer_gate_accepts_sample :
    let X := hexExternals
    let block := Block.withWriteSet X 0 2 [carriedTx] "" [secret.blockForm X]
    let peer : CommitState := { enforcingMiner X with executor := none, contracts := fun _ => none }
    capabilityActive X peer [] 2 endorsementCapabilityId = true ∧
      (peer.enforceBlockEndorsements X [] block []).2 = .ok () := by
  intro X block peer
  have active := effectiveSet_activation X endorsementCapabilityId (le_refl 2)
  have canonical : PersistentWrite.canonicalize [secret] = .ok [secret] :=
    canonicalize_singleton.mpr (by constructor <;> decide)
  have computed : (enforcingMiner X).computeWriteSet X block.transactions =
      .ok (block.writeSet, [[secret]]) := by
    have decodes : X.base64Decode "" = some [] := rfl
    simp [computeWriteSet, enforcingMiner, contribution, carriedTx, runTx,
      decodes, canonical, block, Block.withWriteSet, bind, Except.bind, pure, Except.pure]
  have passed : ((enforcingMiner X).enforceBlockEndorsements X [] block [[secret]]).2 = .ok () := by
    simp only [enforceBlockEndorsements, capabilityEffectiveSet,
      enforcingMiner, block, Block.withWriteSet, active, if_true]
    rfl
  refine ⟨?_, peer_gate_accepts_mined X computed rfl passed ⟨rfl, rfl, rfl⟩⟩
  simp only [capabilityActive, capabilityEffectiveSet, peer, enforcingMiner, active]

/-- While the capability is active, what is admitted live passes the endorsement part of the
replay. -/
theorem AdmittedLive.passes (admitted : AdmittedLive X provider chain block)
    (active : activeFor X (replayed X chain) block = true) :
    BlockPasses X provider (replayed X chain).2 block := by
  obtain ⟨S, writes, attached, cached, policies, attributed, admits⟩ := admitted
  have gate : S.enforceBlockEndorsements X chain block writes =
      (S, S.evaluateBlockEndorsements X provider block writes) := by
    rw [activeFor_eq] at active
    simp [enforceBlockEndorsements, capabilityEffectiveSet, attached, cached, active]
  rw [gate] at admits
  rw [← policies]
  exact (blockPasses_of_evaluate attributed admits).2

lemma enforceChainEndorsements_iff :
    enforceChainEndorsements X (some provider) chain = .ok () ↔
      chain.foldlM (enforceChainStep X provider) (⟨[]⟩, ⟨[]⟩) = .ok (replayed X chain) := by
  have ends (t : CapabilityHistory × PolicyHistory)
      (ran : chain.foldlM (enforceChainStep X provider) (⟨[]⟩, ⟨[]⟩) = .ok t) :
      t = replayed X chain :=
    ((foldlM_eq_ok_iff (enforceChainStep_iff X provider)).mp ran).2
  simp only [enforceChainEndorsements, bind_eq_ok, pure, Except.pure, and_true]
  constructor
  · rintro ⟨t, ran⟩
    rwa [← ends t ran]
  · intro ran
    exact ⟨_, ran⟩

lemma replayed_concat :
    replayed X (chain ++ [block]) = replayNext X (replayed X chain) block := by
  simp [replayed]

lemma enforceChainEndorsements_concat (chain : List Block) (block : Block) :
    enforceChainEndorsements X (some provider) (chain ++ [block]) = .ok () ↔
      enforceChainEndorsements X (some provider) chain = .ok () ∧
        ((replayed X chain).1.validateBlock X block).2 = .ok () ∧
        (activeFor X (replayed X chain) block = true →
          BlockPasses X provider (replayed X chain).2 block) ∧ PolicyOk block := by
  rw [enforceChainEndorsements_iff, enforceChainEndorsements_iff, foldlM_append, bind_eq_ok,
    replayed_concat, ← PolicyHistory.validateBlock_ok_iff (h := (replayed X chain).2)]
  simp only [foldlM_cons, foldlM_nil, bind_eq_ok, pure, Except.pure, Except.ok.injEq,
    exists_eq_right, enforceChainStep_iff]
  constructor
  · rintro ⟨u, ran, passes, -⟩
    obtain rfl : u = replayed X chain :=
      ((foldlM_eq_ok_iff (enforceChainStep_iff X provider)).mp ran).2
    exact ⟨ran, passes⟩
  · rintro ⟨ran, passes⟩
    exact ⟨_, ran, passes, rfl⟩

lemma buildFromBlocks_concat :
    (∃ h, buildFromBlocks X (chain ++ [block]) = .ok h) ↔
      (∃ h, buildFromBlocks X chain = .ok h) ∧
        ((replayed X chain).1.validateBlock X block).2 = .ok () := by
  simp only [buildFromBlocks_eq_ok, runInPlace_concat_eq_ok]
  have leads (h : CapabilityHistory)
      (ran : runInPlace (validateBlock X) ⟨[]⟩ chain = (h, .ok ())) :
      (replayed X chain).1 = h := by
    rw [← foldl_of_runInPlace_ok ran]
    exact (foldl_hom Prod.fst fun _ _ => rfl).symm
  constructor
  · rintro ⟨h', h, ran, valid⟩
    refine ⟨⟨h, ran⟩, ?_⟩
    rw [leads h ran, valid]
  · rintro ⟨⟨h, ran⟩, valid⟩
    rw [leads h ran] at valid
    exact ⟨_, h, ran, Prod.ext rfl valid⟩

/-- For a chain whose blocks were admitted live one after the other, the sync gate accepts exactly
when the capability history replays and every block keeps the policy rules. -/
theorem sync_gate_agrees_iff (X : Externals) (provider : EndorsementProvider) {chain : List Block}
    (grown : GrownLive X provider chain) :
    enforceChainEndorsements X (some provider) chain = .ok () ↔
      (∃ h, buildFromBlocks X chain = .ok h) ∧ ∀ b ∈ chain, PolicyOk b := by
  induction grown with
  | @genesis block silent =>
    have inactive : activeFor X (replayed X []) block = false := by
      rw [activeFor_eq]
      exact endorsement_inactive X [] block.index (by simp)
    have start : enforceChainEndorsements X (some provider) [] = .ok () := rfl
    have empty : ∃ h, buildFromBlocks X [] = .ok h := ⟨_, rfl⟩
    rw [← nil_append [block], enforceChainEndorsements_concat, buildFromBlocks_concat]
    simp [inactive, start, empty]
  | @next chain block _ admitted ih =>
    rw [enforceChainEndorsements_concat, buildFromBlocks_concat, ih]
    have passes := admitted.passes
    simp only [mem_append, mem_singleton, or_imp, forall_and, forall_eq]
    tauto

def newcomer (X : Externals) (provider : EndorsementProvider) : CommitState :=
  ⟨none, fun _ => none, ∅, some provider, (replayed X [sealedGenesis X]).2,
    some (replayed X [sealedGenesis X]).1⟩

/-- Before activation the live gate admits any block of a peer. -/
theorem grownLive_policyBlock (X : Externals) (provider : EndorsementProvider)
    (writes : List PersistentWrite) :
    GrownLive X provider [sealedGenesis X, policyBlock X writes] := by
  have inactive : ((replayed X [sealedGenesis X]).1.effectiveSet X 1).isActive
      endorsementCapabilityId = false := endorsement_inactive X [] 1 (by simp)
  have height : (policyBlock X writes).index = 1 := rfl
  refine .next (.genesis rfl) ⟨newcomer X provider, [], rfl, rfl, rfl, .inl rfl, ?_⟩
  simp [enforceBlockEndorsements, capabilityEffectiveSet, newcomer, height, inactive]

/-- A block that changes a policy and writes under it is admitted live while enforcement is
inactive. The sync gate refuses the chain. -/
theorem clashing_policy_not_synced :
    let X := Externals.plain 0
    let provider : EndorsementProvider := fun _ _ _ => .ok true
    let chain := [sealedGenesis X, policyBlock X [⟨"main", "notes", "a", .set [1], .pub⟩]]
    GrownLive X provider chain ∧ enforceChainEndorsements X (some provider) chain ≠ .ok () := by
  intro X provider chain
  refine ⟨grownLive_policyBlock X provider _, fun accepted => ?_⟩
  obtain ⟨-, -, -, policy⟩ :=
    (enforceChainEndorsements_concat (X := X) [sealedGenesis X] _).mp accepted
  cases policy

/-- Without the write both gates accept. -/
theorem sync_gate_agrees_sample :
    let X := Externals.plain 0
    let provider : EndorsementProvider := fun _ _ _ => .ok true
    let chain := [sealedGenesis X, policyBlock X []]
    GrownLive X provider chain ∧ enforceChainEndorsements X (some provider) chain = .ok () := by
  intro X provider chain
  have grown := grownLive_policyBlock X provider []
  refine ⟨grown, (sync_gate_agrees_iff X provider grown).mpr ⟨⟨_, rfl⟩, fun b member => ?_⟩⟩
  rcases mem_cons.mp member with rfl | last
  · rfl
  · rw [mem_singleton.mp last]
    rfl

end GlassChain
