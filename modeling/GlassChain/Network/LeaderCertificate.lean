import GlassChain.Core.Aggregation
import GlassChain.Network.CommitCertificate

/-!
# The certificate a vote round returns

`collect_phase_votes` drops votes of another height, round or phase, repeated voters and votes that
do not verify. It does not compare the hash a vote names with the candidate's. The leader aggregates
what is left and names its own block in the certificate, so the certificate is accepted exactly when
every precommit it collected names that block. The bitmap is right in any case.
-/

namespace GlassChain

open Library BftConsensusProvider List Validator Multisig

variable {B : Multisig} {P : BftConsensusProvider B}

/-- Votes that verify, one for each key. -/
structure Counted (P : BftConsensusProvider B) (collected : List BftVote) : Prop where
  verified : ∀ v ∈ collected, ∃ i, P.verifyVote v = .ok i
  distinct : (collected.map (·.publicKey)).Nodup

section Collection

variable {seed : BftVote} {seen batchVoters : List Bytes} {batch collected : List BftVote}
  {quorum : Nat}

lemma mem_retainBatch {v : BftVote} (h : v ∈ retainBatch seed seen batchVoters batch) :
    v.publicKey ∉ seen ∧ v.publicKey ∉ batchVoters := by
  induction batch generalizing batchVoters with
  | nil => simp [retainBatch] at h
  | cons w rest ih => grind [retainBatch]

lemma retainBatch_distinct :
    ((retainBatch seed seen batchVoters batch).map (·.publicKey)).Nodup := by
  induction batch generalizing batchVoters with
  | nil => exact nodup_nil
  | cons w rest ih =>
    unfold retainBatch
    split
    · refine nodup_cons.mpr ⟨fun repeated => ?_, ih⟩
      obtain ⟨v, hv, same⟩ := mem_map.mp repeated
      exact (mem_retainBatch hv).2 (by simp [same])
    · exact ih

lemma Counted.append {v : BftVote} {i : Nat} (h : Counted P collected)
    (verified : P.verifyVote v = .ok i) (fresh : v.publicKey ∉ collected.map (·.publicKey)) :
    Counted P (collected ++ [v]) := by
  refine ⟨fun w hw => ?_, ?_⟩
  · rcases mem_append.mp hw with old | new
    · exact h.verified w old
    · exact ⟨i, mem_singleton.mp new ▸ verified⟩
  · rw [map_append, nodup_append]
    refine ⟨h.distinct, by simp, fun key old key' new same => fresh ?_⟩
    rw [map_singleton, mem_singleton] at new
    rwa [← new, ← same]

lemma Counted.countBatch (h : Counted P collected) (quorum : Nat)
    (distinct : (batch.map (·.publicKey)).Nodup)
    (fresh : ∀ v ∈ batch, v.publicKey ∉ collected.map (·.publicKey)) :
    Counted P (countBatch P quorum collected batch).1 := by
  induction batch generalizing collected with
  | nil => exact h
  | cons v rest ih =>
    obtain ⟨new, distinct⟩ := nodup_cons.mp distinct
    unfold GlassChain.countBatch
    split
    · exact ih h distinct fun w hw => fresh w (by simp [hw])
    · rename_i i verified
      have next := h.append verified (fresh v (by simp))
      split
      · exact next
      · refine ih next distinct fun w hw repeated => ?_
        rw [map_append, mem_append] at repeated
        rcases repeated with old | same
        · exact fresh w (by simp [hw]) old
        · rw [map_singleton, mem_singleton] at same
          exact new (mem_map.mpr ⟨w, hw, same⟩)

lemma Counted.collectBatches (h : Counted P collected) (batches : List (List BftVote)) :
    Counted P (collectBatches P quorum seed collected batches) := by
  induction batches generalizing collected with
  | nil => exact h
  | cons batch rest ih =>
    have fresh : ∀ v ∈ retainBatch seed (collected.map (·.publicKey)) [] batch,
        v.publicKey ∉ collected.map (·.publicKey) := fun v hv => (mem_retainBatch hv).1
    have next := h.countBatch quorum retainBatch_distinct fresh
    unfold GlassChain.collectBatches
    split
    · rename_i found; rw [found] at next; exact next
    · rename_i found; rw [found] at next; exact ih next

lemma counted_collectPhaseVotes (batches : List (List BftVote)) :
    Counted P (collectPhaseVotes P quorum seed batches) := by
  refine Counted.collectBatches ⟨?_, ?_⟩ batches
  · intro v hv
    split at hv
    · rename_i own
      cases verified : P.verifyVote seed with
      | error e => simp [verified, Except.isOk, Except.toBool] at own
      | ok i => exact ⟨i, mem_singleton.mp hv ▸ verified⟩
    · cases hv
  · split <;> simp

lemma Counted.exists_named (h : Counted P collected) :
    ∃ named : Nat → String, ∀ v ∈ collected, ∀ i, P.verifyVote v = .ok i → v.blockHash = named i := by
  classical
  refine ⟨fun i => if voted : ∃ v ∈ collected, P.verifyVote v = .ok i then voted.choose.blockHash
    else "", fun v hv i hi => ?_⟩
  have voted : ∃ v ∈ collected, P.verifyVote v = .ok i := ⟨v, hv, hi⟩
  have key : voted.choose.publicKey = v.publicKey := (indexOf_eq_some (verifyVote_eq_ok.mp
      voted.choose_spec.2).2).2.symm.trans (indexOf_eq_some (verifyVote_eq_ok.mp hi).2).2
  have same : voted.choose = v := inj_on_of_nodup_map h.distinct voted.choose_spec.1 hv key
  simp only [dif_pos voted, same]

end Collection

lemma Driver.certificate_eq_ok {d : Driver B} {votes : List BftVote} {c : QuorumCertificate} :
    d.certificate P votes = .ok c ↔ ∃ bitmap aggregate,
      P.aggregateVotes votes = .ok (bitmap, aggregate) ∧
        c = ⟨d.block.index, d.block.hash, bitmap, aggregate, .bls12381⟩ := by
  simp only [Driver.certificate, bind_eq_ok, Prod.exists, pure, Except.pure, Except.ok.injEq,
    eq_comm (a := c)]

lemma Counted.exists_certificate (I : B.Ideal) {votes : List BftVote} (counted : Counted P votes)
    (enough : P.quorum ≤ votes.length) (d : Driver B) : ∃ c, d.certificate P votes = .ok c := by
  obtain ⟨named, names⟩ := counted.exists_named
  obtain ⟨bitmap, σ, run, -⟩ := aggregateVotes_spec I counted.verified names
    (ne_nil_of_length_pos (P.quorum_pos.trans_le enough))
  exact ⟨_, Driver.certificate_eq_ok.mpr ⟨bitmap, _, run, rfl⟩⟩

/-- The certificate over the counted votes of a quorum: the voters, and when it is accepted. -/
theorem Counted.certificate (I : B.Ideal) {votes : List BftVote} (counted : Counted P votes)
    (fits : P.validators.length < 2 ^ 63) (distinct : P.keys.Nodup)
    (enough : P.quorum ≤ votes.length) {d : Driver B} {c : QuorumCertificate}
    (made : d.certificate P votes = .ok c) :
    (∀ i, i ∈ expandSigners c.signersBitmap ↔
      i < P.validators.length ∧ ∃ vote ∈ votes, vote.publicKey = P.keyAt i) ∧
    (P.verifyCertificate c d.block = .ok () ↔ ∀ vote ∈ votes, vote.blockHash = d.block.hash) := by
  obtain ⟨named, names⟩ := counted.exists_named
  obtain ⟨bitmap, σ, run, h⟩ := aggregateVotes_spec I counted.verified names
    (ne_nil_of_length_pos (P.quorum_pos.trans_le enough))
  obtain ⟨bitmap', aggregate, run', rfl⟩ := Driver.certificate_eq_ok.mp made
  obtain ⟨rfl, rfl⟩ : bitmap = bitmap' ∧ B.signatureBytes σ = aggregate := by
    simpa [run] using run'
  have size : votes.length ≤ (expandSigners bitmap).length := by
    have keys := card_voters_le h.verified h.voters
    rwa [toFinset_card_of_nodup counted.distinct, length_map] at keys
  refine ⟨fun i => ?_, h.verifies_iff fits (enough.trans size) d.block⟩
  rw [h.voters]
  constructor
  · rintro ⟨v, hv, hi⟩
    obtain ⟨inside, key⟩ := (verifyVote_iff_keyAt distinct hi).mp hi
    exact ⟨inside, v, hv, key⟩
  · rintro ⟨inside, v, hv, key⟩
    obtain ⟨j, hj⟩ := h.verified v hv
    exact ⟨v, hv, (verifyVote_iff_keyAt distinct hj).mpr ⟨inside, key⟩⟩

namespace Validator

variable {v : Validator B} {X : Externals} {id : Nat} {d : Driver B} {genesisHash : String}
  {batches : List (List BftVote)} {b : Block}

/-- A round that returned a block had collected a quorum of precommits and aggregated them. -/
theorem onPrecommits_decided (stage : d.stage = .precommitting P genesisHash)
    (returned : (v.onPrecommits id d batches).history = v.history ++ [.decided b]) :
    P.quorum ≤ (d.precommits P genesisHash batches).length ∧ ∃ c,
      d.certificate P (d.precommits P genesisHash batches) = .ok c ∧
        b = { d.block with certificate := some c } := by
  obtain run | ⟨provider, genesisHash', stage', run | ⟨e, run⟩ | ⟨c, enough, made, run⟩⟩ :=
    onPrecommits_cases v id d batches <;> rw [run] at returned
  · simp at returned
  · simp [setDriver, closeChannel] at returned
  · simp [setDriver, closeChannel] at returned
  · rw [stage] at stage'
    cases stage'
    refine ⟨enough, c, made, ?_⟩
    simpa [removeDriver, closeChannel, log, eq_comm] using returned

/-- Whenever `run_vote_round` returns a block, the bitmap of its certificate names the validators
whose precommits were collected; and the certificate is accepted under the provider of the round if
and only if every precommit names the block's hash. -/
theorem decided_certificate_verifies_iff (I : B.Ideal) (fits : P.validators.length < 2 ^ 63)
    (distinct : P.keys.Nodup) (driver : v.drivers id = some d)
    (stage : d.stage = .precommitting P genesisHash)
    (returned : (v.handle X (.precommits id batches)).history = v.history ++ [.decided b]) :
    ∃ c, b.certificate = some c ∧
      (∀ i, i ∈ expandSigners c.signersBitmap ↔ i < P.validators.length ∧
        ∃ vote ∈ d.precommits P genesisHash batches, vote.publicKey = P.keyAt i) ∧
      (P.verifyCertificate c b = .ok () ↔
        ∀ vote ∈ d.precommits P genesisHash batches, vote.blockHash = b.hash) := by
  simp only [handle, onDriver, driver] at returned
  split at returned
  · obtain ⟨enough, c, made, rfl⟩ := onPrecommits_decided stage returned
    obtain ⟨voters, accepted⟩ :=
      (counted_collectPhaseVotes batches).certificate I fits distinct enough made
    refine ⟨c, rfl, voters, ?_⟩
    rw [verifyCertificate_iff I] at accepted ⊢
    exact ⟨fun attested => accepted.mp (attested.of_same rfl rfl),
      fun same => (accepted.mpr same).of_same rfl rfl⟩
  · simp at returned

end Validator

section Pair

variable (X : Externals)

noncomputable def followerPrecommit (id : String) : BftVote :=
  (sampleProvider [1, 2] 2).signVote (sealedGenesis X).hash 2 0 .precommit (bftBlock X id).hash

lemma verifyVote_followerPrecommit (id : String) :
    (sampleProvider [1, 2] 1).verifyVote (followerPrecommit X id) = .ok 1 :=
  verifyVote_signVote (symbolicIdeal 48) (sampleProvider_pair 1).2.2.2 ..

noncomputable def pairRound (id : String) : Validator (Multisig.symbolic 48) :=
  (pairValidator X 1).run X ((pairValidator X 1).leadInputs (bftBlock X "a") ++
    [.vote (pairVote X 2 .prevote), .prevotes 0 [[pairVote X 2 .prevote]],
      .vote (followerPrecommit X id)])

noncomputable def pairDriver (id : String) : Driver (Multisig.symbolic 48) :=
  ⟨bftBlock X "a", 0, .precommitting (sampleProvider [1, 2] 1) (sealedGenesis X).hash,
    [followerPrecommit X id]⟩

lemma pairRound_drivers (id : String) : (pairRound X id).drivers 0 = some (pairDriver X id) := by
  obtain ⟨c, receipts, equivocations, -, state⟩ := pair_leader_state X
  rw [pairRound, run_append, run_pairLeader]
  simp only [run, foldl_cons, foldl_nil, state]
  generalize reached : ({ pairLeader X with
    state := _, drivers := _, history := _ } : Validator (symbolic 48)) = v
  have driver : v.drivers 0 = some { pairDriver X id with inbox := [] } := by
    rw [← reached]
    simp [pairDriver]
  have derived : deriveValidatorProvider X v.state = (v.state, some (sampleProvider [1, 2] 1)) := by
    rw [← reached]
    exact deriveValidatorProvider_static rfl rfl rfl
  have channel : v.state.bftVoteTx = some 0 := by
    rw [← reached]
    rfl
  obtain ⟨receipts', equivocations', delivered⟩ := handle_vote derived
    (verifyVote_followerPrecommit X id) channel driver (show 0 < voteChannelCap by decide)
  simp [delivered, pairDriver]

lemma pairDriver_precommits (id : String) :
    (pairDriver X id).precommits (sampleProvider [1, 2] 1) (sealedGenesis X).hash
      [[followerPrecommit X id]] = [pairVote X 1 .precommit, followerPrecommit X id] := by
  obtain ⟨quorum, -, first, -⟩ := sampleProvider_pair 1
  refine collectPhaseVotes_pair quorum (verifyVote_signVote (symbolicIdeal 48) first ..)
    (verifyVote_followerPrecommit X id) rfl rfl rfl ?_
  show List.replicate 48 (2 : UInt8) ≠ List.replicate 48 1
  decide

lemma pairDriver_enough (id : String) :
    (sampleProvider [1, 2] 1).quorum ≤ ((pairDriver X id).precommits (sampleProvider [1, 2] 1)
      (sealedGenesis X).hash [[followerPrecommit X id]]).length := by
  rw [pairDriver_precommits, (sampleProvider_pair 1).1]
  exact le_rfl

/-- The round ends with a block, whatever the follower's precommit names. -/
theorem pairRound_decides (id : String) : ∃ c,
    (pairDriver X id).certificate (sampleProvider [1, 2] 1)
      ((pairDriver X id).precommits (sampleProvider [1, 2] 1) (sealedGenesis X).hash
        [[followerPrecommit X id]]) = .ok c ∧
    ((pairRound X id).handle X (.precommits 0 [[followerPrecommit X id]])).history =
      (pairRound X id).history ++ [.decided { bftBlock X "a" with certificate := some c }] := by
  obtain ⟨c, made⟩ := (counted_collectPhaseVotes _).exists_certificate (symbolicIdeal 48)
    (pairDriver_enough X id) (pairDriver X id)
  refine ⟨c, made, ?_⟩
  rw [handle_precommits (pairRound_drivers X id) rfl (by simp [pairDriver])
    (pairDriver_enough X id) made]
  simp only [pairDriver, log, closeChannel, removeDriver]

/-- With the follower's precommit for the candidate the certificate is accepted. -/
theorem decided_certificate_verifies_pair : ∃ b c, ((pairRound (.plain 0) "a").handle (.plain 0)
        (.precommits 0 [[followerPrecommit (.plain 0) "a"]])).history =
      (pairRound (.plain 0) "a").history ++ [.decided b] ∧
    b.certificate = some c ∧ (sampleProvider [1, 2] 1).verifyCertificate c b = .ok () := by
  obtain ⟨c, -, returned⟩ := pairRound_decides (.plain 0) "a"
  obtain ⟨c', certificate, -, accepted⟩ := decided_certificate_verifies_iff
    (symbolicIdeal 48) (by rw [(sampleProvider_pair 1).2.1]; decide)
    (sampleProvider_distinct (by decide) 1) (pairRound_drivers (.plain 0) "a") rfl returned
  refine ⟨_, c', returned, certificate, accepted.mpr fun vote hvote => ?_⟩
  rw [pairDriver_precommits, mem_pair] at hvote
  rcases hvote with rfl | rfl <;> rfl

/-- A validator set of two distinct keys, one of them the leader's; the follower precommits another
candidate. The round returns a certificate that the same provider rejects. -/
theorem decided_certificate_rejected : (sampleProvider [1, 2] 1).keys.Nodup ∧
    (sampleProvider [1, 2] 1).localIndex = some 0 ∧ ∃ b c,
    ((pairRound (.plain 0) "b").handle (.plain 0)
        (.precommits 0 [[followerPrecommit (.plain 0) "b"]])).history =
      (pairRound (.plain 0) "b").history ++ [.decided b] ∧
    b.certificate = some c ∧ (sampleProvider [1, 2] 1).verifyCertificate c b ≠ .ok () := by
  have distinct := sampleProvider_distinct (show [(1 : UInt8), 2].Nodup by decide) 1
  obtain ⟨c, made, returned⟩ := pairRound_decides (.plain 0) "b"
  refine ⟨distinct, (sampleProvider_pair 1).2.2.1, _, c, returned, rfl, fun accepted => ?_⟩
  have collected : followerPrecommit (.plain 0) "b" ∈ (pairDriver (.plain 0) "b").precommits
      (sampleProvider [1, 2] 1) (sealedGenesis (.plain 0)).hash
      [[followerPrecommit (.plain 0) "b"]] := by
    rw [pairDriver_precommits]
    exact mem_pair.mpr (.inr rfl)
  have names := ((counted_collectPhaseVotes _).certificate (symbolicIdeal 48)
    (by rw [(sampleProvider_pair 1).2.1]; decide) distinct (pairDriver_enough (.plain 0) "b")
    made).2.mp accepted _ collected
  exact Block.after_hash_ne (Externals.plain_contentHash_injective 0) (activationBlock (.plain 0))
    (show "b" ≠ "a" by decide) names

end Pair

end GlassChain
