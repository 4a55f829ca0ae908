import GlassChain.Network.Admission
import GlassChain.Network.Agreement

/-!
# What a commit certificate attests

A vote carries two signatures: one over the hash, which certificates aggregate, and one over the
whole context, which they do not. A certificate therefore says that a quorum voted for the hash, in
whatever phase. A node that admits a block by its certificate may rely on a quorum of precommits
exactly when votes of a quorum imply precommits of a quorum; the prevote certificate a leader
broadcasts is a commit certificate for whoever receives it.
-/

namespace GlassChain

open Library BftConsensusProvider Validator CapabilityHistory CapabilitySet BlockView Block Cluster
  Multisig

variable {B : Multisig} {X : Externals}

def Cluster.Precommitted (P : BftConsensusProvider B) (byzantine : Finset Nat) (N : Cluster B)
    (b : Block) (i : Nat) : Prop :=
  (∃ j ∈ byzantine, P.keyAt j = P.keyAt i) ∨
    ∃ j, Cluster.Honest P byzantine j ∧ ∃ vote ∈ (N j).votes, vote.publicKey = P.keyAt i ∧
      vote.phase = .precommit ∧ vote.height = b.index ∧ vote.blockHash = b.hash

namespace Cluster

variable {I : B.Ideal} {P Q : BftConsensusProvider B} {byzantine : Finset Nat} {N : Cluster B}
  {view : BlockView B} {b : Block}

/-- For a node that derived the set `P` and to which only the consensus evidence of a block matters:
whatever certificate on the network gets the block admitted, a quorum precommitted it, if and only
if a quorum that voted for the hash at all makes a quorum that precommitted the block. -/
theorem admission_attests_precommits_iff (fits : P.validators.length < 2 ^ 63)
    (derived : (deriveValidatorProvider X view.state).2 = some Q)
    (set : Q.validators = P.validators) (active : view.bftConsensusActive X = true)
    (gates : view.GatesOpen X b) :
    (∀ c, N.Transmittable I P byzantine c.aggregateSignature → c.isDegenerate = false →
      view.verdict X { b with certificate := some c } = .append →
      QuorumOf P (N.Precommitted P byzantine b)) ↔
    (QuorumOf P (N.VotedFor P byzantine b.hash) → QuorumOf P (N.Precommitted P byzantine b)) := by
  have admitted (c : QuorumCertificate) (proper : c.isDegenerate = false) :
      view.verdict X { b with certificate := some c } = .append ↔
        P.verifyCertificate c { b with certificate := some c } = .ok () := by
    rw [verdict_certificate_iff gates active derived proper, verifyCertificate_congr set]
  constructor
  · intro attests voted
    obtain ⟨c, certified⟩ := exists_certified (I := I) fits voted
    obtain ⟨_, ⟨⟩, transmittable, accepted⟩ := certified
    have proper : c.isDegenerate = false := by
      have attested := (verifyCertificate_iff I).mp accepted
      simpa [QuorumCertificate.isDegenerate] using attested.nonempty
    exact attests c transmittable proper ((admitted c proper).mpr accepted)
  · intro enough c transmittable proper appended
    have certified : N.Certified I P byzantine { b with certificate := some c } :=
      ⟨c, rfl, transmittable, (admitted c proper).mp appended⟩
    exact enough certified.voters

end Cluster

variable (X : Externals)

def bftActivation : CapabilityActivation :=
  ⟨bftConsensusCapabilityId, 1, capabilityHash X bftConsensusCapabilityId 1, 2,
    [⟨"governance", [1], .ed25519⟩]⟩

def activationBlock : Block :=
  (sealedGenesis X).after X [⟨"activate", 0, .capabilityActivation (bftActivation X), []⟩]

def bftLedger (difficulty : Nat) : Ledger :=
  ⟨[sealedGenesis X, activationBlock X], [], difficulty, 0, none, 0, none⟩

lemma validateBlock_activation :
    CapabilityHistory.validateBlock X ⟨[]⟩ (activationBlock X) = (⟨[bftActivation X]⟩, .ok ()) :=
  validateBlock_activating X (by decide)

def bftCommitState : CommitState :=
  ⟨none, fun _ => none, ∅, none, ⟨[]⟩, some ⟨[bftActivation X]⟩⟩

def bftBlock (id : String) : Block := (activationBlock X).after X [stockTx id]

lemma undisturbedView_gates (difficulty : Nat) {S : NodeState B}
    (commit : S.toCommitState = bftCommitState X) (id : String) :
    (undisturbedView (bftLedger X difficulty) S).bftConsensusActive X = true ∧
      (undisturbedView (bftLedger X difficulty) S).GatesOpen X (bftBlock X id) := by
  have history : S.capabilityHistory = some ⟨[bftActivation X]⟩ :=
    congrArg CommitState.capabilityHistory commit
  have unendorsed : S.endorsement = none := congrArg CommitState.endorsement commit
  have chains := after_chainsTo X (activationBlock X) [stockTx id]
  refine ⟨?_, ⟨"peer", rfl, ?_⟩, ?_, rfl, ⟨activationBlock X, rfl, ?_⟩, ?_, ?_⟩
  · simp [bftConsensusActive, undisturbedView, history, bftLedger,
      effectiveSet, bftActivation, isActive, CapabilitySet.insert]
  · simp [undisturbedView, activeSetAtTip, history, bftLedger, effectiveSet,
      bftActivation, PeerRegistry.isReadOnly, openRegistry, supports, capabilityV1,
      activeVersion, genesis, genesisCapabilities, lookupCapability,
      CapabilitySet.insert, stateCommitmentCapabilityId, pdcCapabilityId, bftConsensusCapabilityId]
  · simp [timestampWithinFutureWindow, bftBlock, Block.after, withWriteSet]
  · rw [bftBlock, chains]
    rfl
  · simp [undisturbedView, validateBlock, bftBlock, Block.after, withWriteSet, runInPlace,
      validateTransaction, stockTx, Except.isOk, Except.toBool]
  · simp [endorsed, undisturbedView, CommitState.enforceBlockEndorsements, unendorsed,
      Except.isOk, Except.toBool]

section Leader

variable {X} {v : Validator B} {P : BftConsensusProvider B} {d : Driver B} {id i j : Nat}
  {vote seed : BftVote}

/-- A verified vote reaches the open channel. -/
theorem Validator.handle_vote (derived : deriveValidatorProvider X v.state = (v.state, some P))
    (verified : P.verifyVote vote = .ok i) (channel : v.state.bftVoteTx = some id)
    (driver : v.drivers id = some d) (room : d.inbox.length < voteChannelCap) :
    ∃ receipts equivocations, v.handle X (.vote vote) = { v with
      state := { v.state with bftReceipts := receipts, equivocations := equivocations }
      drivers := Function.update v.drivers id (some { d with inbox := d.inbox ++ [vote] }) } := by
  simp only [handle, onVote, handleVote, derived, verified, deliver, channel, driver, if_pos room]
  exact ⟨_, _, rfl⟩

lemma collectPhaseVotes_pair (quorum : P.quorum = 2) (own : P.verifyVote seed = .ok i)
    (verified : P.verifyVote vote = .ok j) (height : vote.height = seed.height)
    (round : vote.round = seed.round) (phase : vote.phase = seed.phase)
    (other : vote.publicKey ≠ seed.publicKey) :
    collectPhaseVotes P P.quorum seed [[vote]] = [seed, vote] := by
  simp [collectPhaseVotes, collectBatches, retainBatch, countBatch, own, verified, quorum, height,
    round, phase, other, Except.isOk, Except.toBool]

end Leader

lemma sampleProvider_pair (k : UInt8) :
    (sampleProvider [1, 2] k).quorum = 2 ∧ (sampleProvider [1, 2] k).validators.length = 2 ∧
      (sampleProvider [1, 2] k).indexOf (sampleProvider [1, 2] 1).publicKey = some 0 ∧
      (sampleProvider [1, 2] k).indexOf (sampleProvider [1, 2] 2).publicKey = some 1 := by
  have count : (sampleProvider [1, 2] k).validators.length = 2 := by
    simp [sampleProvider, sampleValidators]
  refine ⟨?_, count, ?_, ?_⟩
  · simp [quorum, count, quorumThreshold]
    decide
  · rw [sampleProvider_indexOf]
    decide
  · rw [sampleProvider_indexOf]
    decide

noncomputable def pairValidator (k : UInt8) : Validator (Multisig.symbolic 48) :=
  ⟨bftLedger X 0, ⟨bftCommitState X, some (sampleProvider [1, 2] k), none, none, ⟨∅⟩, [], none⟩,
    fun _ => none, 0, []⟩

noncomputable def pairCluster : Cluster (Multisig.symbolic 48) :=
  fun i => pairValidator X (if i = 0 then 1 else 2)

noncomputable def pairVote (k : UInt8) (phase : VotePhase) : BftVote :=
  (sampleProvider [1, 2] k).signVote (sealedGenesis X).hash 2 0 phase (bftBlock X "a").hash

lemma pairValidator_derived (k : UInt8) :
    deriveValidatorProvider X (pairValidator X k).state =
      ((pairValidator X k).state, some (sampleProvider [1, 2] k)) :=
  deriveValidatorProvider_static rfl rfl rfl

noncomputable def pairFollower : Validator (Multisig.symbolic 48) :=
  (pairValidator X 2).handle X (.proposal (bftBlock X "a") 0)

lemma pairFollower_spec :
    (pairFollower X).history = [.signed (pairVote X 2 .prevote)] ∧
      (pairFollower X).ledger = bftLedger X 0 ∧
      (pairFollower X).state.toCommitState = bftCommitState X ∧
      deriveValidatorProvider X (pairFollower X).state =
        ((pairFollower X).state, some (sampleProvider [1, 2] 2)) := by
  have valid : validCandidate X (pairValidator X 2).ledger (pairValidator X 2).state
      (bftBlock X "a") = true := validCandidate_stock rfl "a"
  rw [pairFollower, handle_proposal (pairValidator_derived X 2) rfl valid 0]
  exact ⟨rfl, rfl, rfl, deriveValidatorProvider_static rfl rfl rfl⟩

noncomputable def pairLeader : Validator (Multisig.symbolic 48) :=
  (pairValidator X 1).leading (sampleProvider [1, 2] 1) (bftBlock X "a")

lemma run_pairLeader :
    (pairValidator X 1).run X ((pairValidator X 1).leadInputs (bftBlock X "a")) = pairLeader X := by
  obtain ⟨-, count, first, -⟩ := sampleProvider_pair 1
  have slot : proposerIndex (sampleProvider [1, 2] 1) (bftBlock X "a").index 0 = 0 := by
    rw [proposerIndex, validatorCount, count]
    exact (by decide : proposerSlot 2 0 2 = 0)
  have leads : (sampleProvider [1, 2] 1).localIndex =
      some (proposerIndex (sampleProvider [1, 2] 1) (bftBlock X "a").index 0) := by
    rw [slot]
    exact first
  exact run_leadInputs (pairValidator_derived X 1) (isValid_iff.mpr rfl) leads

/-- With the follower's prevote the leader makes a prevote certificate, precommits and waits for
precommits. -/
theorem pair_leader_state :
    ∃ c receipts equivocations,
      BftConsensusProvider.Attested (symbolicIdeal 48) (sampleProvider [1, 2] 1) c
        (bftBlock X "a") ∧
      ((pairLeader X).handle X (.vote (pairVote X 2 .prevote))).handle X
          (.prevotes 0 [[pairVote X 2 .prevote]]) =
        { pairLeader X with
          state := { (pairLeader X).state with
            bftReceipts := receipts, equivocations := equivocations }
          drivers := Function.update (pairLeader X).drivers 0 (some ⟨bftBlock X "a", 0,
            .precommitting (sampleProvider [1, 2] 1) (sealedGenesis X).hash, []⟩)
          history := [.signed (pairVote X 1 .prevote), .justified (bftBlock X "a") 0 c,
            .signed (pairVote X 1 .precommit)] } := by
  obtain ⟨quorum, count, first, second⟩ := sampleProvider_pair 1
  let d : Driver (symbolic 48) := ⟨bftBlock X "a", 0,
    .prevoting (sampleProvider [1, 2] 1) (sealedGenesis X).hash, [pairVote X 2 .prevote]⟩
  have own : (sampleProvider [1, 2] 1).verifyVote (pairVote X 1 .prevote) = .ok 0 :=
    verifyVote_signVote (symbolicIdeal 48) first _ _ _ _ _
  have other : (sampleProvider [1, 2] 1).verifyVote (pairVote X 2 .prevote) = .ok 1 :=
    verifyVote_signVote (symbolicIdeal 48) second _ _ _ _ _
  have keys : (pairVote X 2 .prevote).publicKey ≠ (pairVote X 1 .prevote).publicKey := by
    intro same
    have index := congrArg (sampleProvider [1, 2] 1).indexOf same
    rw [show (sampleProvider [1, 2] 1).indexOf (pairVote X 2 .prevote).publicKey = some 1 from second,
      show (sampleProvider [1, 2] 1).indexOf (pairVote X 1 .prevote).publicKey = some 0 from first]
      at index
    exact absurd index (by decide)
  have prevotes : d.prevotes (sampleProvider [1, 2] 1) (sealedGenesis X).hash
      [[pairVote X 2 .prevote]] = [pairVote X 1 .prevote, pairVote X 2 .prevote] :=
    collectPhaseVotes_pair quorum own other rfl rfl rfl keys
  have verified : ∀ vote ∈ [pairVote X 1 .prevote, pairVote X 2 .prevote],
      ∃ i, (sampleProvider [1, 2] 1).verifyVote vote = .ok i := by
    simpa using ⟨⟨0, own⟩, ⟨1, other⟩⟩
  obtain ⟨c, made, attested, -⟩ := d.certificate_attested (symbolicIdeal 48)
    (by rw [count]; decide) verified
    (by simp [d, pairVote, signVote, BftVote.sign])
    (by rw [quorum]; simp [keys.symm])
  have driver : (pairLeader X).drivers 0 = some { d with inbox := [] } := by
    simp [pairLeader, leading, log, d, pairValidator]
    rfl
  obtain ⟨receipts, equivocations, delivered⟩ := handle_vote (X := X)
    (deriveValidatorProvider_static rfl rfl rfl) other rfl driver
    (show 0 < voteChannelCap by decide)
  have driver' : ((pairLeader X).handle X (.vote (pairVote X 2 .prevote))).drivers 0 = some d := by
    simp [delivered, d]
  have justify := handle_prevotes (X := X) driver' rfl
    (show List.isPrefixOf [[pairVote X 2 .prevote]].flatten d.inbox = true by simp [d])
    (by rw [prevotes]; exact quorum.le) (by rw [prevotes]; exact made)
  refine ⟨c, receipts, equivocations, attested, ?_⟩
  rw [justify, delivered]
  simp [setDriver, log, Except.toOption, d]
  rfl

lemma pair_leader :
    ∃ c, BftConsensusProvider.Attested (symbolicIdeal 48) (sampleProvider [1, 2] 1) c
        (bftBlock X "a") ∧
      (((((pairValidator X 1).leading (sampleProvider [1, 2] 1) (bftBlock X "a")).handle X
        (.vote (pairVote X 2 .prevote))).handle X (.prevotes 0 [[pairVote X 2 .prevote]])).history =
        [.signed (pairVote X 1 .prevote), .justified (bftBlock X "a") 0 c,
          .signed (pairVote X 1 .precommit)]) := by
  obtain ⟨c, receipts, equivocations, attested, state⟩ := pair_leader_state X
  exact ⟨c, attested, congrArg Validator.history state⟩

lemma pairCluster_honest {i : Nat} (inside : i < 2) :
    Cluster.Honest (sampleProvider [1, 2] 1) ∅ i :=
  ⟨by rw [(sampleProvider_pair 1).2.1]; exact inside, Finset.notMem_empty i⟩

lemma pairProvider_keyAt {i : Nat} (inside : i < 2) :
    (sampleProvider [1, 2] 1).keyAt i = (sampleProvider [1, 2] (if i = 0 then 1 else 2)).publicKey := by
  obtain ⟨-, -, first, second⟩ := sampleProvider_pair 1
  interval_cases i
  · exact (indexOf_eq_some first).2
  · exact (indexOf_eq_some second).2

lemma pairCluster_start : Cluster.Start X (sampleProvider [1, 2] 1) ∅ (pairCluster X) := by
  rintro i ⟨inside, -⟩
  rw [(sampleProvider_pair 1).2.1] at inside
  refine ⟨⟨rfl, fun _ => rfl, rfl⟩, ?_, fun _ _ h => (by cases h), fun _ _ h => by cases h⟩
  intro P attached
  cases attached
  exact (pairProvider_keyAt inside).symm

noncomputable def justifiedPair : Cluster (Multisig.symbolic 48) :=
  Function.update (Function.update (pairCluster X) 1 (pairFollower X)) 0
    (((pairLeader X).handle X (.vote (pairVote X 2 .prevote))).handle X
      (.prevotes 0 [[pairVote X 2 .prevote]]))

lemma justifiedPair_reached :
    Reaches (Cluster.Step (symbolicIdeal 48) X (sampleProvider [1, 2] 1) ∅) anyStep
      (pairCluster X) (justifiedPair X) := by
  have free : ∀ input ∈ (pairValidator X 1).leadInputs (bftBlock X "a"),
      ∀ N : Cluster _, N.Authentic (symbolicIdeal 48) (sampleProvider [1, 2] 1) ∅ input := by
    simp [leadInputs, Cluster.Authentic]
  have honest₀ := pairCluster_honest (show 0 < 2 by decide)
  have honest₁ := pairCluster_honest (show 1 < 2 by decide)
  have led := reaches_run (X := X) honest₀ free (pairCluster X)
  rw [show List.foldl (handle X) (pairCluster X 0) _ = pairLeader X from run_pairLeader X] at led
  let N₁ : Cluster (symbolic 48) := Function.update (pairCluster X) 0 (pairLeader X)
  let N₂ : Cluster (symbolic 48) := Function.update N₁ 1 (pairFollower X)
  let N₃ : Cluster (symbolic 48) :=
    Function.update N₂ 0 ((pairLeader X).handle X (.vote (pairVote X 2 .prevote)))
  have leader : N₂ 0 = pairLeader X := by simp [N₂, N₁]
  have voted : pairVote X 2 .prevote ∈ (N₂ 1).votes := by
    simp [N₂, votes, (pairFollower_spec X).1, Event.ballot]
  have followed := led.tail (1, .proposal (bftBlock X "a") 0) trivial
    (show Cluster.Step (symbolicIdeal 48) X (sampleProvider [1, 2] 1) ∅ N₁
        (1, .proposal (bftBlock X "a") 0) N₂ from
      ⟨honest₁, trivial, by simp [N₂, N₁, pairFollower, pairCluster]⟩)
  have delivered := followed.tail (0, .vote (pairVote X 2 .prevote)) trivial
    (show Cluster.Step (symbolicIdeal 48) X (sampleProvider [1, 2] 1) ∅ N₂
        (0, .vote (pairVote X 2 .prevote)) N₃ from
      ⟨honest₀, authentic_vote honest₁ voted, by rw [leader]⟩)
  refine delivered.tail (0, .prevotes 0 [[pairVote X 2 .prevote]]) trivial ⟨honest₀, trivial, ?_⟩
  simp [justifiedPair, N₃, N₂, N₁, Function.update_comm (show (0 : Nat) ≠ 1 by decide)]

/-- At the follower of the pair every gate but the consensus one is open for the leader's
candidate. -/
theorem admission_attests_precommits_pair :
    (∀ c, (justifiedPair (.plain 0)).Transmittable (symbolicIdeal 48)
        (sampleProvider [1, 2] 1) ∅ c.aggregateSignature → c.isDegenerate = false →
      (undisturbedView (bftLedger (.plain 0) 0) (pairFollower (.plain 0)).state).verdict (.plain 0)
        { bftBlock (.plain 0) "a" with certificate := some c } = .append →
      Cluster.QuorumOf (sampleProvider [1, 2] 1) ((justifiedPair (.plain 0)).Precommitted
        (sampleProvider [1, 2] 1) ∅ (bftBlock (.plain 0) "a"))) ↔
    (Cluster.QuorumOf (sampleProvider [1, 2] 1) ((justifiedPair (.plain 0)).VotedFor
        (sampleProvider [1, 2] 1) ∅ (bftBlock (.plain 0) "a").hash) →
      Cluster.QuorumOf (sampleProvider [1, 2] 1) ((justifiedPair (.plain 0)).Precommitted
        (sampleProvider [1, 2] 1) ∅ (bftBlock (.plain 0) "a"))) := by
  obtain ⟨-, -, commit, derived⟩ := pairFollower_spec (.plain 0)
  obtain ⟨active, gates⟩ := undisturbedView_gates (.plain 0) 0 commit "a"
  exact admission_attests_precommits_iff (by rw [(sampleProvider_pair 1).2.1]; decide)
    (congrArg Prod.snd derived) rfl active gates

/-- The leader's prevote certificate, sent in a block, is admitted by the follower, although only
the leader has precommitted. -/
theorem prevote_certificate_admitted :
    Cluster.Start (.plain 0) (sampleProvider [1, 2] 1) ∅ (pairCluster (.plain 0)) ∧
      ∃ N, Reaches (Cluster.Step (symbolicIdeal 48) (.plain 0) (sampleProvider [1, 2] 1) ∅)
        anyStep (pairCluster (.plain 0)) N ∧
        ∃ (b : Block) (c : QuorumCertificate), .justified b 0 c ∈ (N 0).history ∧
          c.isDegenerate = false ∧
          (undisturbedView (N 1).ledger (N 1).state).bftConsensusActive (.plain 0) = true ∧
          (undisturbedView (N 1).ledger (N 1).state).verdict (.plain 0)
            { b with certificate := some c } = .append ∧
          ¬Cluster.QuorumOf (sampleProvider [1, 2] 1)
            (N.Precommitted (sampleProvider [1, 2] 1) ∅ b) := by
  obtain ⟨quorum, count, -, -⟩ := sampleProvider_pair 1
  obtain ⟨c, attested, leaderHistory⟩ := pair_leader (.plain 0)
  have proper : c.isDegenerate = false := by
    simpa [QuorumCertificate.isDegenerate] using attested.nonempty
  have leader : (justifiedPair (.plain 0) 0).history = _ := leaderHistory
  have follower : justifiedPair (.plain 0) 1 = pairFollower (.plain 0) := by simp [justifiedPair]
  obtain ⟨followerHistory, ledger, commit, derived⟩ := pairFollower_spec (.plain 0)
  obtain ⟨active, gates⟩ := undisturbedView_gates (.plain 0) 0 commit "a"
  have accepted : (sampleProvider [1, 2] 2).verifyCertificate c
      { bftBlock (.plain 0) "a" with certificate := some c } = .ok () := by
    rw [verifyCertificate_congr
      (show (sampleProvider [1, 2] 2).validators = (sampleProvider [1, 2] 1).validators from rfl)]
    exact (verifyCertificate_iff (symbolicIdeal 48)).mpr (attested.of_same rfl rfl)
  refine ⟨pairCluster_start _, justifiedPair (.plain 0), justifiedPair_reached _,
    bftBlock (.plain 0) "a", c, ?_, proper, ?_, ?_, ?_⟩
  · rw [leader]
    simp
  · rw [follower, ledger]
    exact active
  · rw [follower, ledger]
    exact (verdict_certificate_iff gates active (congrArg Prod.snd derived) proper).mpr accepted
  · rintro ⟨S, inside, enough, precommitted⟩
    -- a quorum of two needs the follower
    rw [count] at inside
    have all : S = Finset.range 2 :=
      Finset.eq_of_subset_of_card_le inside (by simpa [quorum] using enough)
    obtain ⟨j, absurd, -⟩ | ⟨j, honest, vote, signed, key, phase, -⟩ :=
      precommitted 1 (by simp [all])
    · simp at absurd
    · have own := (publicKey_of_votes (pairCluster_start _) (justifiedPair_reached _)
        honest).2 vote signed
      obtain rfl : j = 1 := keyAt_injective
        (sampleProvider_distinct (by decide) 1) honest.1 (by rw [count]; decide)
        (own.symm.trans key)
      simp [votes, follower, followerHistory, Event.ballot] at signed
      rw [signed] at phase
      cases phase

end GlassChain
