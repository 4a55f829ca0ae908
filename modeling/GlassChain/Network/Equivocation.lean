import GlassChain.Network.Voting

/-!
# Equivocation

Nothing but the round record remembers what a validator signed. Its cached proposal pins one hash to
the record's (height, round); as long as the record only moves forward and never swaps the hash it
remembers, no two votes of the node share a context and differ in the hash. The handlers do not keep
to this: a second proposal for the same round is voted on like the first.
-/

namespace GlassChain

open Library Validator List

variable {B : Multisig} {X : Externals}

def Event.ballot : Event → Option BftVote
  | signed vote => some vote
  | _ => none

variable {events : List Event}

lemma Event.ballot_of_silent (silent : ∀ e ∈ events, e.silent = true) :
    events.filterMap Event.ballot = [] := by
  rw [filterMap_eq_nil_iff]
  intro e he
  cases e with
  | signed vote => exact absurd (silent _ he) (by simp [Event.silent])
  | _ => rfl

namespace Validator

def votes (v : Validator B) : List BftVote := v.history.filterMap Event.ballot

lemma votes_append {v v' : Validator B} (history : v'.history = v.history ++ events) :
    v'.votes = v.votes ++ events.filterMap Event.ballot := by
  rw [votes, history, filterMap_append, votes]

lemma votes_silent {v v' : Validator B} (history : v'.history = v.history ++ events)
    (silent : ∀ e ∈ events, e.silent = true) : v'.votes = v.votes := by
  rw [votes_append history, Event.ballot_of_silent silent, append_nil]

lemma votes_signed {v v' : Validator B} {ballot : BftVote}
    (history : v'.history = v.history ++ (events ++ [.signed ballot]))
    (silent : ∀ e ∈ events, e.silent = true) : v'.votes = v.votes ++ [ballot] := by
  rw [votes_append history, filterMap_append, Event.ballot_of_silent silent]
  rfl

/-- A validator before its first round. -/
structure Fresh (v : Validator B) : Prop where
  history : v.history = []
  drivers : ∀ id, v.drivers id = none
  record : v.state.bftRound = none

def Step (X : Externals) (v : Validator B) (input : Input B) (v' : Validator B) : Prop :=
  v' = v.handle X input

section Stakes

variable {P : Type*} {position : Nat → Nat → P} {v v' : Validator B}

/-- Hashes the validator voted for, or will vote for as a leader, at the position of their height
and round. -/
def stakes (position : Nat → Nat → P) (v : Validator B) : Set (P × String) :=
  {s | (∃ ballot ∈ v.votes, s = (position ballot.height ballot.round, ballot.blockHash)) ∨
    ∃ id d, v.drivers id = some d ∧ d.live = true ∧
      s = (position d.block.index d.round, d.block.hash)}

lemma Fresh.stakes (fresh : v.Fresh) : v.stakes position = ∅ := by
  rw [Set.eq_empty_iff_forall_notMem]
  rintro _ (⟨ballot, signed, -⟩ | ⟨id, d, hd, -⟩)
  · simp [votes, fresh.history] at signed
  · rw [fresh.drivers id] at hd
    cases hd

lemma stakes_quiet (drivers : v.KeepsDrivers v') (same : v'.votes = v.votes) :
    v'.stakes position ⊆ v.stakes position := by
  rintro _ (⟨ballot, signed, rfl⟩ | ⟨id, d', hd', live, rfl⟩)
  · exact .inl ⟨ballot, same ▸ signed, rfl⟩
  · obtain ⟨d, hd, alive, block, round⟩ := drivers id d' hd' live
    exact .inr ⟨id, d, hd, alive, by rw [block, round]⟩

lemma stakes_vote {height round : Nat} {phase : VotePhase} {hash : String} {ballot : BftVote}
    (vote : v.Votes X height round phase hash ballot) (drivers : v.KeepsDrivers v')
    (signed : v'.votes = v.votes ++ [ballot]) :
    v'.stakes position ⊆ insert (position height round, hash) (v.stakes position) := by
  obtain ⟨provider, chainId, -, rfl⟩ := vote
  rintro _ (⟨ballot, member, rfl⟩ | ⟨id, d', hd', live, rfl⟩)
  · rw [signed, mem_append] at member
    cases member with
    | inl old => exact .inr (.inl ⟨ballot, old, rfl⟩)
    | inr new =>
      rw [mem_singleton.mp new]
      exact .inl rfl
  · obtain ⟨d, hd, alive, block, round⟩ := drivers id d' hd' live
    exact .inr (.inr ⟨id, d, hd, alive, by rw [block, round]⟩)

end Stakes

def roundPosition (height round : Nat) : Nat ×ₗ Nat := toLex (height, round)

def proposalMark (v : Validator B) : Option ((Nat ×ₗ Nat) × Option String) :=
  v.state.bftRound.map fun r => (roundPosition r.height r.round, r.proposal.map (·.hash))

/-- The record moves forward: a proposal and a registration take it to a later round, or find there
no cached proposal or the block they bring (a node that does not lead brings none); a precommit
message for the record's round names its cached proposal. -/
def RoundsAdvance (v : Validator B) : Input B → Prop
  | .proposal block round =>
    Pinned.Forward v.proposalMark (roundPosition block.index round) (some block.hash)
  | .register id => ∀ d provider isLeader, v.drivers id = some d →
      d.stage = .derived provider isLeader →
      Pinned.Forward v.proposalMark (roundPosition d.block.index d.round)
        (if isLeader then some d.block.hash else none)
  | .precommit block round _ => ∀ r, v.state.bftRound = some r → r.height = block.index →
      r.round = round → r.proposal.map (·.hash) = some block.hash
  | _ => True

variable {v v' : Validator B} {input : Input B}

lemma takeRound_height (S : NodeState B) (height : Nat) :
    (takeRound S height).height = height := by
  unfold takeRound
  split
  · split
    · assumption
    · rfl
  · rfl

lemma takeRound_of_record {S : NodeState B} {r : BftRound} {height : Nat}
    (record : S.bftRound = some r) (same : r.height = height) : takeRound S height = r := by
  simp [takeRound, record, same]

lemma takeRound_of_other {S : NodeState B} {r : BftRound} {height : Nat}
    (record : S.bftRound = some r) (other : r.height ≠ height) :
    takeRound S height = .new height := by
  simp [takeRound, record, other]

/-- Abstaining forgets nothing: the record keeps its proposal, or moves to another height. -/
theorem forward_of_abstained {block : Block} {round : Nat}
    (forward : Pinned.Forward v.proposalMark (roundPosition block.index round) (some block.hash)) :
    Pinned.Forward v.proposalMark (roundPosition block.index round)
      ((takeRound v.state block.index).proposal.map (·.hash)) := by
  intro p k mark
  refine (forward p k mark).imp id fun ⟨same, _⟩ => ⟨same, .inr ?_⟩
  obtain ⟨r, record, entry⟩ := Option.map_eq_some_iff.mp mark
  cases entry
  have height : r.height = block.index := congrArg (fun q => (ofLex q).1) same
  simp [takeRound_of_record record height]

lemma pinned_step (pinned : Pinned v.proposalMark (v.stakes roundPosition))
    (ok : v.RoundsAdvance input) (effect : v.Effect X v' input) :
    Pinned v'.proposalMark (v'.stakes roundPosition) := by
  cases effect with
  | quiet events record drivers silent history =>
    rw [proposalMark, record]
    exact pinned.mono (stakes_quiet drivers (votes_silent history silent))
  | @prevoted block round ballot _ _ record drivers vote history =>
    have mark : v'.proposalMark = some (roundPosition block.index round, some block.hash) := by
      simp [proposalMark, record, takeRound_height]
    rw [mark]
    exact (pinned.move ok).stake.mono (stakes_vote vote drivers (votes_append history))
  | @abstained block round record drivers history =>
    have mark : v'.proposalMark = some (roundPosition block.index round,
        (takeRound v.state block.index).proposal.map (·.hash)) := by
      simp [proposalMark, record, takeRound_height]
    rw [mark]
    exact (pinned.move (forward_of_abstained ok)).mono
      (stakes_quiet drivers (by rw [votes, history, votes]))
  | @precommitted block round certificate r ballot before height current record drivers vote
      history =>
    have mark : v.proposalMark = some (roundPosition block.index round, some block.hash) := by
      simp [proposalMark, before, height, current, ok r before height current]
    have mark' : v'.proposalMark = v.proposalMark := by simp [proposalMark, record, before]
    rw [mark', mark]
    rw [mark] at pinned
    exact pinned.stake.mono (stakes_vote vote drivers (votes_append history))
  | @registered id d provider isLeader driver stage record drivers history =>
    have forward := ok d provider isLeader driver stage
    have same : v'.votes = v.votes := by rw [votes, history, votes]
    cases isLeader with
    | true =>
      have mark : v'.proposalMark =
          some (roundPosition d.block.index d.round, some d.block.hash) := by
        simp [proposalMark, record]
      rw [mark]
      refine (pinned.move forward).stake.mono ?_
      rintro _ (⟨ballot, signed, rfl⟩ | ⟨j, d', hd', live, rfl⟩)
      · exact .inr (.inl ⟨ballot, same ▸ signed, rfl⟩)
      · obtain ⟨d₀, hd₀, alive, block, round⟩ | ⟨-, block, round⟩ := drivers j d' hd' live
        · exact .inr (.inr ⟨j, d₀, hd₀, alive, by rw [block, round]⟩)
        · exact .inl (by rw [block, round])
    | false =>
      have mark : v'.proposalMark = some (roundPosition d.block.index d.round, none) := by
        simp [proposalMark, record]
      rw [mark]
      refine (pinned.move forward).mono (stakes_quiet (fun j d' hd' live => ?_) same)
      exact (drivers j d' hd' live).elim (fun kept => kept) fun absurd => by cases absurd.1
  | @seeded _ id d phase ballot events _ driver live record drivers vote silent history =>
    rw [proposalMark, record]
    refine pinned.mono ((stakes_vote vote drivers (votes_signed history silent)).trans ?_)
    exact Set.insert_subset (.inr ⟨id, d, driver, live, rfl⟩) subset_rfl

/-- An equivocation proof that verifies holds two votes of one context that differ in the hash. -/
theorem conflict_of_verify {proof : EquivocationProof} (h : proof.verify B = .ok ()) :
    proof.firstVote.chainId = proof.secondVote.chainId ∧
      proof.firstVote.height = proof.secondVote.height ∧
      proof.firstVote.round = proof.secondVote.round ∧
      proof.firstVote.phase = proof.secondVote.phase ∧
      proof.firstVote.blockHash ≠ proof.secondVote.blockHash := by
  simp only [EquivocationProof.verify, bind_eq_ok, require_eq_ok, EquivocationProof.agrees,
    Bool.and_eq_true, beq_iff_eq, bne_iff_ne] at h
  obtain ⟨_, -, _, -, _, differ, _, ⟨⟨⟨h₁, r₁⟩, p₁⟩, -⟩, _, ⟨⟨⟨h₂, r₂⟩, p₂⟩, -⟩, chain⟩ := h
  exact ⟨chain, h₁.trans h₂.symm, r₁.trans r₂.symm, p₁.trans p₂.symm, differ⟩

/-- In a run that keeps to the advancing rounds, a validator never signs two hashes in one context,
and no two of its votes make an equivocation proof that verifies. -/
theorem never_equivocates_along_runs {v₀ v : Validator B} (fresh : v₀.Fresh)
    (run : Reaches (Step X) RoundsAdvance v₀ v) :
    (∀ a ∈ v.votes, ∀ b ∈ v.votes, a.chainId = b.chainId → a.height = b.height →
      a.round = b.round → a.phase = b.phase → a.blockHash = b.blockHash) ∧
    ∀ proof : EquivocationProof, proof.firstVote ∈ v.votes → proof.secondVote ∈ v.votes →
      proof.verify B ≠ .ok () := by
  have pinned : Pinned v.proposalMark (v.stakes roundPosition) := by
    refine run.invariant (I := fun v => Pinned v.proposalMark (v.stakes roundPosition)) ?_ ?_
    · rintro v input v' pinned ok rfl
      exact pinned_step pinned ok (handle_effect X v input)
    · rw [fresh.stakes]
      exact Pinned.empty _
  have unique : ∀ a ∈ v.votes, ∀ b ∈ v.votes, a.height = b.height → a.round = b.round →
      a.blockHash = b.blockHash := by
    intro a ha b hb height round
    refine pinned.unique (roundPosition a.height a.round) _ _ (.inl ⟨a, ha, rfl⟩) ?_
    exact .inl ⟨b, hb, by rw [height, round]⟩
  refine ⟨fun a ha b hb _ height round _ => unique a ha b hb height round, ?_⟩
  intro proof first second verified
  obtain ⟨-, height, round, -, differ⟩ := conflict_of_verify verified
  exact differ (unique _ first _ second height round)

end Validator

lemma deriveValidatorProvider_static {S : NodeState B} {P : BftConsensusProvider B}
    (consensus : S.consensus = some P) (world : S.worldState = ∅)
    (cache : S.bftValidatorCache = none) : deriveValidatorProvider X S = (S, some P) := by
  unfold deriveValidatorProvider
  simp [consensus, world, cache, registryEntries_empty]

/-- A proposal that passes the checks is prevoted. -/
theorem Validator.handle_proposal {v : Validator B} {P : BftConsensusProvider B} {block : Block}
    (derived : deriveValidatorProvider X v.state = (v.state, some P))
    (unlocked : (takeRound v.state block.index).locked = none)
    (valid : validCandidate X v.ledger v.state block = true) (round : Nat) :
    v.handle X (.proposal block round) =
      { v with state := { v.state with bftRound := some { takeRound v.state block.index with
          round := round, proposal := some block } } }.log
        [.signed (P.signVote v.ledger.chainId block.index round .prevote block.hash)] := by
  simp [handle, onProposal, handleProposal, derived, unlocked, valid]

noncomputable def sampleValidator (X : Externals) (ks : List UInt8) (k : UInt8) :
    Validator (Multisig.symbolic 48) :=
  ⟨(freshPool X).ledger, ⟨⟨none, fun _ => none, ∅, none, ⟨[]⟩, none⟩, some (sampleProvider ks k),
    none, none, ⟨∅⟩, [], none⟩, fun _ => none, 0, []⟩

lemma sampleValidator_fresh (X : Externals) (ks : List UInt8) (k : UInt8) :
    (sampleValidator X ks k).Fresh := ⟨rfl, fun _ => rfl, rfl⟩

def sampleBlock (X : Externals) (id : String) : Block := (sealedGenesis X).after X [stockTx id]

/-- A stock movement on the tip is a candidate under every capability history. -/
theorem validCandidate_stock {L : Ledger} {S : NodeState B} {tip : Block}
    (last : L.chain.getLast? = some tip) (id : String) :
    validCandidate X L S (tip.after X [stockTx id]) = true := by
  have chains := Block.after_chainsTo X tip [stockTx id]
  simp [validCandidate, last, CapabilityHistory.validateBlock_stock, chains, Except.isOk,
    Except.toBool]

lemma sampleBlock_hash_ne {X : Externals} (injective : Function.Injective X.contentHash)
    {a b : String} (differ : a ≠ b) : (sampleBlock X a).hash ≠ (sampleBlock X b).hash :=
  Block.after_hash_ne injective (sealedGenesis X) differ

/-- A validator that holds its static set, at the genesis chain. -/
structure SampleState (X : Externals) (P : BftConsensusProvider B) (v : Validator B) : Prop where
  ledger : v.ledger = (freshPool X).ledger
  consensus : v.state.consensus = some P
  world : v.state.worldState = ∅
  cache : v.state.bftValidatorCache = none

namespace SampleState

variable {P : BftConsensusProvider B} {v : Validator B}

lemma derived (sample : SampleState X P v) :
    deriveValidatorProvider X v.state = (v.state, some P) :=
  deriveValidatorProvider_static sample.consensus sample.world sample.cache

lemma chainId (sample : SampleState X P v) : v.ledger.chainId = (sealedGenesis X).hash := by
  rw [sample.ledger]
  rfl

lemma of_setRound {v' : Validator B} {record : Option BftRound} (sample : SampleState X P v)
    (run : v' = { v with state := { v.state with bftRound := record } }.log events) :
    SampleState X P v' := by
  subst run
  exact ⟨sample.ledger, sample.consensus, sample.world, sample.cache⟩

/-- Without a lock such a validator prevotes any candidate for height 1. -/
theorem handle_proposal (sample : SampleState X P v)
    (unlocked : (takeRound v.state 1).locked = none) (id : String) (round : Nat) :
    v.handle X (.proposal (sampleBlock X id) round) =
      { v with state := { v.state with bftRound := some { takeRound v.state 1 with
          round := round, proposal := some (sampleBlock X id) } } }.log
        [.signed (P.signVote (sealedGenesis X).hash 1 round .prevote (sampleBlock X id).hash)] := by
  have valid : validCandidate X v.ledger v.state (sampleBlock X id) = true := by
    rw [sample.ledger]
    exact validCandidate_stock rfl id
  have run := Validator.handle_proposal sample.derived unlocked valid round
  rw [sample.chainId] at run
  exact run

end SampleState

lemma sampleValidator_sample (X : Externals) (ks : List UInt8) (k : UInt8) :
    SampleState X (sampleProvider ks k) (sampleValidator X ks k) :=
  ⟨rfl, rfl, rfl, rfl⟩

/-- Proposals for two rounds, from a fresh state: the record advances, and the two votes do not
conflict. -/
theorem never_equivocates_two_rounds :
    let v := ((sampleValidator (.plain 0) [1] 1).handle (.plain 0)
      (.proposal (sampleBlock (.plain 0) "a") 0)).handle (.plain 0)
      (.proposal (sampleBlock (.plain 0) "b") 1)
    v.votes.map BftVote.round = [0, 1] ∧
      (∀ a ∈ v.votes, ∀ b ∈ v.votes, a.chainId = b.chainId → a.height = b.height →
        a.round = b.round → a.phase = b.phase → a.blockHash = b.blockHash) ∧
      ∀ proof : EquivocationProof, proof.firstVote ∈ v.votes → proof.secondVote ∈ v.votes →
        proof.verify (Multisig.symbolic 48) ≠ .ok () := by
  have sample := sampleValidator_sample (.plain 0) [1] 1
  have first := sample.handle_proposal rfl "a" 0
  have second := (sample.of_setRound first).handle_proposal (by rw [first]; rfl) "b" 1
  refine ⟨by rw [second, first]; rfl, ?_⟩
  refine never_equivocates_along_runs (X := .plain 0) (sampleValidator_fresh (.plain 0) [1] 1)
    (((Reaches.refl _).tail (.proposal (sampleBlock (.plain 0) "a") 0) ?_ rfl).tail
      (.proposal (sampleBlock (.plain 0) "b") 1) ?_ rfl)
  · intro p k mark
    cases mark
  · rw [first]
    intro p k mark
    cases mark
    exact .inl (by decide)

/-- Two proposals for round 0 of height 1, from anyone: the validator prevotes both, and its two
votes make an equivocation proof that verifies. -/
theorem honest_validator_equivocates :
    (sampleValidator (.plain 0) [1] 1).Fresh ∧ ∃ v,
      Reaches (Validator.Step (.plain 0)) anyStep (sampleValidator (.plain 0) [1] 1) v ∧
      ∃ a ∈ v.votes, ∃ b ∈ v.votes, a.chainId = b.chainId ∧ a.height = b.height ∧
        a.round = b.round ∧ a.phase = b.phase ∧ a.blockHash ≠ b.blockHash ∧
        EquivocationProof.verify (Multisig.symbolic 48)
          ⟨a.height, a.round, a.phase, a.publicKey, a, b⟩ = .ok () := by
  have sample := sampleValidator_sample (.plain 0) [1] 1
  have first := sample.handle_proposal rfl "a" 0
  have second := (sample.of_setRound first).handle_proposal (by rw [first]; rfl) "b" 0
  have differ := sampleBlock_hash_ne (Externals.plain_contentHash_injective 0)
    (show "a" ≠ "b" by decide)
  let vote (id : String) := (sampleProvider [1] 1).signVote (sealedGenesis (.plain 0)).hash 1 0
    .prevote (sampleBlock (.plain 0) id).hash
  refine ⟨sampleValidator_fresh _ _ _, _,
    ((Reaches.refl _).tail (.proposal (sampleBlock (.plain 0) "a") 0) trivial rfl).tail
      (.proposal (sampleBlock (.plain 0) "b") 0) trivial rfl, ?_⟩
  rw [second, first]
  refine ⟨vote "a", by simp [vote, votes, log, Event.ballot], vote "b",
    by simp [vote, votes, log, Event.ballot], rfl, rfl, rfl, rfl, differ, ?_⟩
  have verified (hash : String) := BftVote.verify_sign (Multisig.symbolicIdeal 48)
    (sealedGenesis (.plain 0)).hash 1 0 .prevote hash (sampleKey 1)
  simp only [EquivocationProof.verify, bind_eq_ok, require_eq_ok, EquivocationProof.agrees,
    Bool.and_eq_true, beq_iff_eq, bne_iff_ne]
  refine ⟨(), verified _, (), verified _, (), differ, ?_⟩
  simp [vote, BftConsensusProvider.signVote, BftVote.sign]

end GlassChain
