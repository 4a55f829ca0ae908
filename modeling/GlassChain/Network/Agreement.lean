import GlassChain.Network.Cluster

/-!
# Agreement

A certificate signs the block hash and nothing else: neither height, round nor phase. Two votes of
one member at a height, in whatever rounds and phases, count for two certificates. Agreement
therefore needs every honest member to stay with one hash per height. The lock, or else the cached
proposal, of its round record is its pledge; a run in which honest members keep their pledges has no
two certified blocks at one height.
-/

namespace GlassChain

open Library BftConsensusProvider Validator Cluster Multisig

variable {B : Multisig} {X : Externals}

def BftRound.pledge (r : BftRound) : Option String := r.locked <|> r.proposal.map (·.hash)

def Genuine (X : Externals) (height : Nat) (hash : String) : Prop :=
  ∃ b : Block, b.isValid X = true ∧ b.index = height ∧ b.hash = hash

/-- With injective hashing a hash belongs to one height. -/
theorem Genuine.height_eq {h : Nat} {b : Block} (injective : Function.Injective X.contentHash)
    (genuine : Genuine X h b.hash) (valid : b.isValid X = true) : h = b.index := by
  obtain ⟨b', valid', rfl, same⟩ := genuine
  rw [Block.isValid_iff] at valid valid'
  have content : b'.content = b.content := injective (valid'.symm.trans (same.trans valid))
  exact congrArg BlockContent.index content

namespace Validator

def pledgeMark (v : Validator B) : Option (Nat × Option String) :=
  v.state.bftRound.map fun r => (r.height, r.pledge)

def heightStakes (v : Validator B) : Set (Nat × String) := v.stakes fun height _ => height

/-- A member keeps to its pledge. A proposal or a registration takes the record to a later height,
or finds it at this height without a pledge or pledged to the block it brings; a proposal may also
meet another lock, and a node that does not lead keeps its lock. A precommit message for the
record's round names the pledge, or meets none and brings a block that stores its own hash. -/
def KeepsPledge (X : Externals) (v : Validator B) : Input B → Prop
  | .proposal block _ => ∀ r, v.state.bftRound = some r →
      r.height < block.index ∨ r.height = block.index ∧
        (r.pledge = none ∨ r.pledge = some block.hash ∨
          ∃ hash, r.locked = some hash ∧ hash ≠ block.hash)
  | .register id => ∀ d provider isLeader r, v.drivers id = some d →
      d.stage = .derived provider isLeader → v.state.bftRound = some r →
      r.height < d.block.index ∨ r.height = d.block.index ∧
        (r.pledge = none ∨ if isLeader then r.pledge = some d.block.hash else r.locked ≠ none)
  | .precommit block round _ => ∀ r, v.state.bftRound = some r → r.height = block.index →
      r.round = round → r.pledge = some block.hash ∨ r.pledge = none ∧ block.isValid X = true
  | _ => True

/-- One hash per height, and each is the hash of a block of that height. -/
structure Pledged (X : Externals) (v : Validator B) : Prop where
  pinned : Pinned v.pledgeMark v.heightStakes
  mark : ∀ height hash, v.pledgeMark = some (height, some hash) → Genuine X height hash
  stakes : ∀ height hash, (height, hash) ∈ v.heightStakes → Genuine X height hash

lemma Fresh.pledged {v : Validator B} (fresh : v.Fresh) : v.Pledged X := by
  have empty : v.heightStakes = ∅ := fresh.stakes
  refine ⟨?_, ?_, ?_⟩
  · rw [empty]
    exact Pinned.empty _
  · intro height hash mark
    simp [pledgeMark, fresh.record] at mark
  · intro height hash staked
    rw [empty] at staked
    exact staked.elim

variable {v v' : Validator B} {input : Input B} {height : Nat} {memory : Option String}
  {hash : String}

namespace Pledged

lemma keep (pledged : v.Pledged X) (mark : v'.pledgeMark = v.pledgeMark)
    (fewer : v'.heightStakes ⊆ v.heightStakes) : v'.Pledged X := by
  refine ⟨?_, ?_, fun height hash staked => pledged.stakes height hash (fewer staked)⟩
  · rw [mark]
    exact pledged.pinned.mono fewer
  · rw [mark]
    exact pledged.mark

lemma move (pledged : v.Pledged X) (mark : v'.pledgeMark = some (height, memory))
    (forward : Pinned.Forward v.pledgeMark height memory)
    (genuine : ∀ hash, memory = some hash → Genuine X height hash)
    (fewer : v'.heightStakes ⊆ v.heightStakes) : v'.Pledged X := by
  refine ⟨?_, ?_, fun height hash staked => pledged.stakes height hash (fewer staked)⟩
  · rw [mark]
    exact (pledged.pinned.move forward).mono fewer
  · intro p x held
    rw [mark] at held
    cases held
    exact genuine x rfl

lemma stake (pledged : v.Pledged X) (mark : v'.pledgeMark = some (height, some hash))
    (forward : Pinned.Forward v.pledgeMark height (some hash)) (genuine : Genuine X height hash)
    (staked : v'.heightStakes ⊆ insert (height, hash) v.heightStakes) : v'.Pledged X := by
  refine ⟨?_, ?_, fun p x new => ?_⟩
  · rw [mark]
    exact (pledged.pinned.move forward).stake.mono staked
  · intro p x held
    rw [mark] at held
    cases held
    exact genuine
  · cases staked new with
    | inl same =>
      cases same
      exact genuine
    | inr old => exact pledged.stakes p x old

end Pledged

lemma pledgeMark_of_record {r : BftRound} (record : v.state.bftRound = some r) :
    v.pledgeMark = some (r.height, r.pledge) := by
  simp [pledgeMark, record]

/-- A condition on the record is one on the mark. -/
theorem forward_of_record (h : ∀ r, v.state.bftRound = some r →
    r.height < height ∨ r.height = height ∧ (r.pledge = none ∨ r.pledge = memory)) :
    Pinned.Forward v.pledgeMark height memory := by
  intro p k mark
  obtain ⟨r, record, entry⟩ := Option.map_eq_some_iff.mp mark
  cases entry
  exact h r record

lemma pledge_of_locked {r : BftRound} (locked : r.locked = some hash) : r.pledge = some hash := by
  simp [BftRound.pledge, locked]

lemma Pledged.prevoted {block : Block} {round : Nat} {ballot : BftVote} (pledged : v.Pledged X)
    (ok : v.KeepsPledge X (.proposal block round))
    (unlocked : ∀ hash, (takeRound v.state block.index).locked = some hash → hash = block.hash)
    (valid : validCandidate X v.ledger v.state block = true)
    (record : v'.state.bftRound = some
      { takeRound v.state block.index with round := round, proposal := some block })
    (drivers : v.KeepsDrivers v') (vote : v.Votes X block.index round .prevote block.hash ballot)
    (signed : v'.votes = v.votes ++ [ballot]) : v'.Pledged X := by
  have mark : v'.pledgeMark = some (block.index, some block.hash) := by
    rw [pledgeMark_of_record record, takeRound_height]
    cases locked : (takeRound v.state block.index).locked with
    | none => simp [BftRound.pledge, locked]
    | some hash => simp [BftRound.pledge, locked, unlocked hash locked]
  obtain ⟨previous, -, chains⟩ := chainsTo_of_validCandidate valid
  refine pledged.stake mark (forward_of_record fun r before => ?_)
    ⟨block, (Block.chainsTo_iff.mp chains).2.2, rfl, rfl⟩ (stakes_vote vote drivers signed)
  refine (ok r before).imp id fun ⟨same, cases⟩ => ⟨same, ?_⟩
  obtain free | kept | ⟨hash, locked, other⟩ := cases
  · exact .inl free
  · exact .inr kept
  · rw [takeRound_of_record before same] at unlocked
    exact absurd (unlocked hash locked) other

lemma Pledged.abstained {block : Block} {round : Nat} (pledged : v.Pledged X)
    (ok : v.KeepsPledge X (.proposal block round))
    (record : v'.state.bftRound = some { takeRound v.state block.index with round := round })
    (fewer : v'.heightStakes ⊆ v.heightStakes) : v'.Pledged X := by
  have mark : v'.pledgeMark = some (block.index, (takeRound v.state block.index).pledge) := by
    rw [pledgeMark_of_record record, takeRound_height]
    rfl
  refine pledged.move mark (forward_of_record fun r before => ?_) (fun hash memory => ?_) fewer
  · refine (ok r before).imp id fun ⟨same, _⟩ => ⟨same, .inr ?_⟩
    rw [takeRound_of_record before same]
  · unfold takeRound at memory
    split at memory
    · rename_i r before
      split at memory
      · rename_i same
        exact pledged.mark _ _ ((pledgeMark_of_record before).trans (by rw [memory, same]))
      · cases memory
    · cases memory

lemma Pledged.precommitted {block : Block} {round : Nat} {certificate : QuorumCertificate}
    {r : BftRound} {ballot : BftVote} (pledged : v.Pledged X)
    (ok : v.KeepsPledge X (.precommit block round certificate)) (before : v.state.bftRound = some r)
    (same : r.height = block.index) (current : r.round = round)
    (record : v'.state.bftRound = some { r with locked := some block.hash })
    (drivers : v.KeepsDrivers v')
    (vote : v.Votes X block.index round .precommit block.hash ballot)
    (signed : v'.votes = v.votes ++ [ballot]) : v'.Pledged X := by
  have mark : v'.pledgeMark = some (block.index, some block.hash) := by
    rw [pledgeMark_of_record record, pledge_of_locked rfl, ← same]
  have held := pledgeMark_of_record before
  refine pledged.stake mark (forward_of_record fun r' before' => ?_) ?_
    (stakes_vote vote drivers signed)
  · obtain rfl : r = r' := Option.some.inj (before.symm.trans before')
    exact .inr ⟨same, (ok r before same current).symm.imp And.left id⟩
  · obtain kept | ⟨-, valid⟩ := ok r before same current
    · exact pledged.mark _ _ (held.trans (by rw [kept, same]))
    · exact ⟨block, valid, rfl, rfl⟩

def lockAt (v : Validator B) (height : Nat) : Option String :=
  (v.state.bftRound.filter (·.height == height)).bind (·.locked)

lemma lockAt_of_record {r : BftRound} (record : v.state.bftRound = some r)
    (same : r.height = height) : v.lockAt height = r.locked := by
  simp [lockAt, record, Option.filter, same]

lemma exists_record_of_lockAt (locked : v.lockAt height = some hash) :
    ∃ r, v.state.bftRound = some r ∧ r.height = height ∧ r.locked = some hash := by
  obtain ⟨r, found, held⟩ := Option.bind_eq_some_iff.mp locked
  obtain ⟨record, same⟩ := Option.filter_eq_some_iff.mp found
  exact ⟨r, record, by simpa using same, held⟩

lemma Pledged.registered {key : Bytes} {id : Nat} {d : Driver B}
    {provider : BftConsensusProvider B} {isLeader : Bool} (pledged : v.Pledged X)
    (keyed : v.Keyed X key) (ok : v.KeepsPledge X (.register id)) (driver : v.drivers id = some d)
    (stage : d.stage = .derived provider isLeader)
    (record : v'.state.bftRound = some ⟨d.block.index, d.round, v.lockAt d.block.index,
      if isLeader then some d.block else none⟩)
    (drivers : ∀ id' d', v'.drivers id' = some d' → d'.live = true →
      (∃ d₀, v.drivers id' = some d₀ ∧ d₀.live = true ∧ d'.block = d₀.block ∧
        d'.round = d₀.round) ∨
      isLeader = true ∧ d'.block = d.block ∧ d'.round = d.round)
    (same : v'.votes = v.votes) : v'.Pledged X := by
  have ready := fun r => ok d provider isLeader r driver stage
  cases isLeader with
  | true =>
    have mark : v'.pledgeMark = some (d.block.index, some d.block.hash) := by
      rw [pledgeMark_of_record record]
      cases locked : v.lockAt d.block.index with
      | none => simp [BftRound.pledge]
      | some hash =>
        obtain ⟨r, before, height, held⟩ := exists_record_of_lockAt locked
        have pledge := pledge_of_locked held
        obtain lower | ⟨-, free | kept⟩ := ready r before
        · omega
        · rw [pledge] at free
          cases free
        · rw [pledge] at kept
          simpa [BftRound.pledge] using kept
    refine pledged.stake mark (forward_of_record ready)
      ⟨d.block, (keyed.drivers id d driver).1, rfl, rfl⟩ ?_
    rintro _ (⟨ballot, signed, rfl⟩ | ⟨j, d', hd', live, rfl⟩)
    · exact .inr (.inl ⟨ballot, same ▸ signed, rfl⟩)
    · obtain ⟨d₀, hd₀, alive, block, round⟩ | ⟨-, block, -⟩ := drivers j d' hd' live
      · exact .inr (.inr ⟨j, d₀, hd₀, alive, by rw [block]⟩)
      · exact .inl (by rw [block])
  | false =>
    have mark : v'.pledgeMark = some (d.block.index, v.lockAt d.block.index) := by
      rw [pledgeMark_of_record record]
      simp [BftRound.pledge]
    refine pledged.move mark (forward_of_record fun r before => ?_) (fun hash locked => ?_)
      (stakes_quiet (fun j d' hd' live => ?_) same)
    · refine (ready r before).imp_right fun ⟨height, cases⟩ =>
        ⟨height, cases.imp_right fun held => ?_⟩
      obtain ⟨hash, locked⟩ := Option.ne_none_iff_exists'.mp held
      rw [lockAt_of_record before height, locked, pledge_of_locked locked]
    · obtain ⟨r, before, height, held⟩ := exists_record_of_lockAt locked
      refine pledged.mark _ _ ((pledgeMark_of_record before).trans ?_)
      rw [height, pledge_of_locked held]
    · exact (drivers j d' hd' live).elim (fun kept => kept) fun absurd => by cases absurd.1

lemma Pledged.step {key : Bytes} (pledged : v.Pledged X) (keyed : v.Keyed X key)
    (ok : v.KeepsPledge X input) (effect : v.Effect X v' input) : v'.Pledged X := by
  cases effect with
  | quiet events record drivers silent history =>
    exact pledged.keep (by rw [pledgeMark, record, pledgeMark])
      (stakes_quiet drivers (votes_silent history silent))
  | prevoted unlocked valid record drivers vote history =>
    exact pledged.prevoted ok unlocked valid record drivers vote (votes_append history)
  | abstained record drivers history =>
    exact pledged.abstained ok record (stakes_quiet drivers (by rw [votes, history, votes]))
  | precommitted before height current record drivers vote history =>
    exact pledged.precommitted ok before height current record drivers vote (votes_append history)
  | registered driver stage record drivers history =>
    exact pledged.registered keyed ok driver stage record drivers (by rw [votes, history, votes])
  | @seeded _ id d phase ballot events _ driver live record drivers vote silent history =>
    refine pledged.keep (by rw [pledgeMark, record, pledgeMark])
      ((stakes_vote vote drivers (votes_signed history silent)).trans ?_)
    exact Set.insert_subset (.inr ⟨id, d, driver, live, rfl⟩) subset_rfl

end Validator

namespace Cluster

variable {I : B.Ideal} {P : BftConsensusProvider B} {byzantine : Finset Nat} {N N₀ : Cluster B}

def KeepPledges (X : Externals) (N : Cluster B) (action : Nat × Input B) : Prop :=
  (N action.1).KeepsPledge X action.2

lemma pledged_of_run (start : Start X P byzantine N₀)
    (run : Reaches (Step I X P byzantine) (KeepPledges X) N₀ N) {i : Nat}
    (honest : Honest P byzantine i) : (N i).Pledged X := by
  suffices both : (N i).Keyed X (P.keyAt i) ∧ (N i).Pledged X from both.2
  refine member_invariant (X := X) (I := I)
    (J := fun i v => v.Keyed X (P.keyAt i) ∧ v.Pledged X) ?_ run ?_ i honest
  · rintro N i input - ⟨keyed, pledged⟩ ok
    exact ⟨keyed.handle input, pledged.step keyed ok (handle_effect X (N i) input)⟩
  · exact fun i hi => ⟨(start i hi).2, (start i hi).1.pledged⟩

/-- With distinct keys, a position that is not Byzantine voted itself. -/
theorem vote_of_votedFor {ok : Cluster B → Nat × Input B → Prop} (distinct : P.keys.Nodup)
    (inside : ∀ i ∈ byzantine, i < P.validators.length) (start : Start X P byzantine N₀)
    (run : Reaches (Step I X P byzantine) ok N₀ N) {i : Nat} {hash : String}
    (honest : Honest P byzantine i) (voted : N.VotedFor P byzantine hash i) :
    ∃ vote ∈ (N i).votes, vote.blockHash = hash := by
  obtain ⟨j, corrupt, same⟩ | ⟨j, member, vote, signed, key, name⟩ := voted
  · rw [keyAt_injective distinct (inside j corrupt) honest.1 same] at corrupt
    exact absurd corrupt honest.2
  · have own := (publicKey_of_votes start run member).2 vote signed
    rw [keyAt_injective distinct member.1 honest.1 (own.symm.trans key)] at signed
    exact ⟨vote, signed, name⟩

/-- Two certificates have a common voter that is honest. -/
theorem exists_honest_voter {b₁ b₂ : Block} (fits : P.validators.length < 2 ^ 63)
    (few : 3 * byzantine.card < P.validators.length) (first : N.Certified I P byzantine b₁)
    (second : N.Certified I P byzantine b₂) :
    ∃ i, Honest P byzantine i ∧ N.VotedFor P byzantine b₁.hash i ∧
      N.VotedFor P byzantine b₂.hash i := by
  obtain ⟨S, hS, enoughS, votedS⟩ := first.voters
  obtain ⟨T, hT, enoughT, votedT⟩ := second.voters
  have quorum : P.quorum = 2 * P.validators.length / 3 + 1 := quorumThreshold_eq fits
  obtain ⟨i, inS, inT, good⟩ := exists_common_outside hS hT le_rfl
    (show P.validators.length + byzantine.card < S.card + T.card by omega)
  exact ⟨i, ⟨Finset.mem_range.mp (hS inS), good⟩, votedS i inS, votedT i inT⟩

/-- In a run where honest members keep their pledges, certified blocks of one height that store
their own hashes have the same hash. -/
theorem agreement_along_runs (distinct : P.keys.Nodup) (fits : P.validators.length < 2 ^ 63)
    (inside : ∀ i ∈ byzantine, i < P.validators.length)
    (few : 3 * byzantine.card < P.validators.length)
    (injective : Function.Injective X.contentHash) (start : Start X P byzantine N₀)
    (run : Reaches (Step I X P byzantine) (KeepPledges X) N₀ N) {b₁ b₂ : Block}
    (valid₁ : b₁.isValid X = true) (valid₂ : b₂.isValid X = true)
    (first : N.Certified I P byzantine b₁) (second : N.Certified I P byzantine b₂)
    (height : b₁.index = b₂.index) : b₁.hash = b₂.hash := by
  obtain ⟨i, honest, voted₁, voted₂⟩ := exists_honest_voter fits few first second
  obtain ⟨vote₁, signed₁, hash₁⟩ := vote_of_votedFor distinct inside start run honest voted₁
  obtain ⟨vote₂, signed₂, hash₂⟩ := vote_of_votedFor distinct inside start run honest voted₂
  have pledged := pledged_of_run start run honest
  have staked₁ : (vote₁.height, b₁.hash) ∈ (N i).heightStakes :=
    .inl ⟨vote₁, signed₁, by rw [hash₁]⟩
  have staked₂ : (vote₂.height, b₂.hash) ∈ (N i).heightStakes :=
    .inl ⟨vote₂, signed₂, by rw [hash₂]⟩
  -- the hashes are those of the blocks, so the votes were cast at the blocks' height
  have height₁ := (pledged.stakes _ _ staked₁).height_eq injective valid₁
  have height₂ := (pledged.stakes _ _ staked₂).height_eq injective valid₂
  refine pledged.pinned.unique vote₁.height _ _ staked₁ ?_
  rw [height₁, height, ← height₂]
  exact staked₂

end Cluster

namespace Validator

variable {v : Validator B} {P : BftConsensusProvider B} {block : Block}

def run (X : Externals) (v : Validator B) (inputs : List (Input B)) : Validator B :=
  inputs.foldl (handle X) v

lemma run_append (first second : List (Input B)) :
    v.run X (first ++ second) = (v.run X first).run X second := List.foldl_append

def leadInputs (v : Validator B) (block : Block) : List (Input B) :=
  [.drive block, .derive v.nextDriver, .register v.nextDriver, .propose v.nextDriver]

def leading (v : Validator B) (P : BftConsensusProvider B) (block : Block) : Validator B :=
  { v with
    state := { v.state with
      bftRound := some ⟨block.index, 0, v.lockAt block.index, some block⟩
      bftVoteTx := some v.nextDriver }
    drivers := Function.update v.drivers v.nextDriver
      (some ⟨block, 0, .prevoting P v.ledger.chainId, []⟩)
    nextDriver := v.nextDriver + 1 }.log
      [.signed (P.signVote v.ledger.chainId block.index 0 .prevote block.hash)]

lemma run_leadInputs (derived : deriveValidatorProvider X v.state = (v.state, some P))
    (valid : block.isValid X = true)
    (leads : P.localIndex = some (proposerIndex P block.index 0)) :
    v.run X (v.leadInputs block) = v.leading P block := by
  have hash : { block with hash := block.calculateHash X } = block := by
    rw [← Block.isValid_iff.mp valid]
  simp [run, leadInputs, handle, onDrive, onDriver, onDerive, Driver.new, hash, Driver.derive,
    derived, leads, setDriver, onRegister, Driver.register, onPropose, leading, Except.toOption,
    lockAt, Driver.seed]

end Validator

lemma Driver.certificate_attested (I : B.Ideal) {P : BftConsensusProvider B} {d : Driver B}
    (fits : P.validators.length < 2 ^ 63) {votes : List BftVote}
    (verified : ∀ v ∈ votes, ∃ i, P.verifyVote v = .ok i)
    (same : ∀ v ∈ votes, v.blockHash = d.block.hash)
    (enough : P.quorum ≤ (votes.map (·.publicKey)).toFinset.card) :
    ∃ c, d.certificate P votes = .ok c ∧ BftConsensusProvider.Attested I P c d.block ∧
      ∀ i ∈ expandSigners c.signersBitmap, ∃ v ∈ votes, P.verifyVote v = .ok i := by
  obtain ⟨bitmap, aggregate, run, voters, attested⟩ :=
    aggregateVotes_attested I fits verified same enough
  exact ⟨_, by simp [Driver.certificate, run, bind, Except.bind, pure, Except.pure],
    attested d.block rfl, fun i hi => (voters i).mp hi⟩

namespace Validator

variable {v : Validator B} {P : BftConsensusProvider B} {id : Nat} {d : Driver B}
  {genesisHash : String} {batches : List (List BftVote)} {c : QuorumCertificate}

/-- The prevotes make a certificate: it is broadcast and the precommit phase begins. -/
theorem handle_prevotes (driver : v.drivers id = some d)
    (stage : d.stage = .prevoting P genesisHash)
    (inbox : batches.flatten.isPrefixOf d.inbox = true)
    (enough : P.quorum ≤ (d.prevotes P genesisHash batches).length)
    (certified : d.certificate P (d.prevotes P genesisHash batches) = .ok c) :
    v.handle X (.prevotes id batches) = (v.setDriver id (.ok { d with
        inbox := d.inbox.drop batches.flatten.length
        stage := .precommitting P genesisHash })).log
        [.justified d.block d.round c, .signed (d.seed P genesisHash .precommit)] := by
  simp only [handle, onDriver, driver, if_pos inbox, onPrevotes, stage, if_neg enough.not_gt,
    certified]

/-- The precommits make a certificate: the block is final for this node. -/
theorem handle_precommits (driver : v.drivers id = some d)
    (stage : d.stage = .precommitting P genesisHash)
    (inbox : batches.flatten.isPrefixOf d.inbox = true)
    (enough : P.quorum ≤ (d.precommits P genesisHash batches).length)
    (certified : d.certificate P (d.precommits P genesisHash batches) = .ok c) :
    v.handle X (.precommits id batches) = (v.removeDriver id).closeChannel.log
      [.decided { d.block with certificate := some c }] := by
  simp only [handle, onDriver, driver, if_pos inbox, onPrecommits, stage, if_neg enough.not_gt,
    certified]

end Validator

/-- A driver whose own vote is a quorum needs nobody else to end a phase. -/
theorem Driver.solo_phase (I : B.Ideal) {P : BftConsensusProvider B} (d : Driver B) {index : Nat}
    (member : P.localIndex = some index) (single : P.quorum = 1)
    (fits : P.validators.length < 2 ^ 63) (genesisHash : String) (phase : VotePhase) :
    collectPhaseVotes P P.quorum (d.seed P genesisHash phase) [] = [d.seed P genesisHash phase] ∧
      ∃ c, d.certificate P [d.seed P genesisHash phase] = .ok c ∧
        BftConsensusProvider.Attested I P c d.block ∧
        ∀ i ∈ expandSigners c.signersBitmap, P.keyAt i = P.publicKey := by
  have own : P.verifyVote (d.seed P genesisHash phase) = .ok index :=
    verifyVote_signVote I member _ _ _ _ _
  have verified : ∀ vote ∈ [d.seed P genesisHash phase], ∃ i, P.verifyVote vote = .ok i := by
    simpa using ⟨index, own⟩
  obtain ⟨c, made, attested, voters⟩ := d.certificate_attested I fits verified
    (by simp [Driver.seed, signVote, BftVote.sign]) (by simp [single])
  refine ⟨?_, c, made, attested, fun i hi => ?_⟩
  · simp [collectPhaseVotes, collectBatches, own, Except.isOk, Except.toBool]
  · obtain ⟨vote, inVotes, position⟩ := voters i hi
    rw [List.mem_singleton.mp inVotes] at position
    exact (indexOf_eq_some (verifyVote_eq_ok.mp position).2).2

def Validator.soloInputs (v : Validator B) (block : Block) : List (Input B) :=
  v.leadInputs block ++ [.prevotes v.nextDriver [], .precommits v.nextDriver []]

/-- A leader whose own vote is a quorum decides its block. -/
theorem SampleState.solo_decides (I : B.Ideal) {P : BftConsensusProvider B} {v : Validator B}
    {block : Block} (sample : SampleState X P v) (valid : block.isValid X = true)
    (leads : P.localIndex = some (proposerIndex P block.index 0)) (single : P.quorum = 1)
    (fits : P.validators.length < 2 ^ 63) :
    SampleState X P (v.run X (v.soloInputs block)) ∧
      ∃ c, BftConsensusProvider.Attested I P c block ∧
        (∀ i ∈ expandSigners c.signersBitmap, P.keyAt i = P.publicKey) ∧
        ∃ justified, (v.run X (v.soloInputs block)).history = v.history ++
          [.signed (P.signVote v.ledger.chainId block.index 0 .prevote block.hash),
            .justified block 0 justified,
            .signed (P.signVote v.ledger.chainId block.index 0 .precommit block.hash),
            .decided { block with certificate := some c }] := by
  let g := v.ledger.chainId
  let prevoting : Driver B := ⟨block, 0, .prevoting P g, []⟩
  let precommitting : Driver B := ⟨block, 0, .precommitting P g, []⟩
  obtain ⟨prevotes, justified, first, -⟩ := prevoting.solo_phase I leads single fits g .prevote
  obtain ⟨precommits, c, second, attested, voters⟩ :=
    precommitting.solo_phase I leads single fits g .precommit
  have lead := run_leadInputs sample.derived valid leads
  have driver : (v.leading P block).drivers v.nextDriver = some prevoting := by
    simp [leading, log, prevoting, g]
  have justify : (v.leading P block).handle X (.prevotes v.nextDriver []) = _ :=
    handle_prevotes driver rfl rfl (by rw [Driver.prevotes, prevotes]; exact single.le)
      (by rw [Driver.prevotes, prevotes]; exact first)
  have driver' : ((v.leading P block).handle X (.prevotes v.nextDriver [])).drivers v.nextDriver =
      some precommitting := by
    simp [justify, setDriver, log, Except.toOption, precommitting, prevoting]
  have decide : ((v.leading P block).handle X (.prevotes v.nextDriver [])).handle X
      (.precommits v.nextDriver []) = _ :=
    handle_precommits driver' rfl rfl (by rw [Driver.precommits, precommits]; exact single.le)
      (by rw [Driver.precommits, precommits]; exact second)
  have run : v.run X (v.soloInputs block) = ((v.leading P block).handle X
      (.prevotes v.nextDriver [])).handle X (.precommits v.nextDriver []) := by
    rw [soloInputs, run_append, lead]
    rfl
  rw [run, decide, justify]
  refine ⟨⟨sample.ledger, sample.consensus, sample.world, sample.cache⟩, c,
    attested, voters, justified, ?_⟩
  simp [log, closeChannel, removeDriver, setDriver,
    leading, Driver.seed, prevoting, precommitting, g]

lemma sampleProvider_solo (k : UInt8) :
    (sampleProvider [k] k).quorum = 1 ∧ (sampleProvider [k] k).validators.length = 1 ∧
      ∀ height, (sampleProvider [k] k).localIndex =
        some (proposerIndex (sampleProvider [k] k) height 0) := by
  have count : (sampleProvider [k] k).validators.length = 1 := by
    simp [sampleProvider, sampleValidators]
  refine ⟨?_, count, fun height => ?_⟩
  · simp [quorum, count, quorumThreshold]
  · have slot : proposerIndex (sampleProvider [k] k) height 0 = 0 := by
      simp [proposerIndex, proposerSlot, validatorCount, count, Nat.mod_one]
    rw [slot, localIndex, sampleProvider_indexOf]
    simp

noncomputable def soloCluster (X : Externals) : Cluster (Multisig.symbolic 48) :=
  fun _ => sampleValidator X [1] 1

lemma soloCluster_start (X : Externals) :
    Cluster.Start X (sampleProvider [1] 1) ∅ (soloCluster X) := by
  rintro i ⟨inside, -⟩
  have first : i = 0 := by
    rw [(sampleProvider_solo 1).2.1] at inside
    omega
  subst first
  refine ⟨sampleValidator_fresh X [1] 1, ?_, fun _ _ h => (by cases h), fun _ _ h => by cases h⟩
  intro P attached
  cases attached
  rfl

lemma soloCluster_honest : Cluster.Honest (sampleProvider [1] 1) ∅ 0 :=
  ⟨by rw [(sampleProvider_solo 1).2.1]; decide, Finset.notMem_empty 0⟩

/-- After one proposal a block can be certified, and blocks certified at one height agree. -/
theorem agreement_one_proposal :
    let N : Cluster _ := Function.update (soloCluster (.plain 0)) 0
      ((sampleValidator (.plain 0) [1] 1).handle (.plain 0) (.proposal (sampleBlock (.plain 0) "a") 0))
    ∃ b : Block, N.Certified (symbolicIdeal 48) (sampleProvider [1] 1) ∅ b ∧
      b.isValid (.plain 0) = true ∧ ∀ b' : Block, b'.isValid (.plain 0) = true →
        N.Certified (symbolicIdeal 48) (sampleProvider [1] 1) ∅ b' →
        b.index = b'.index → b.hash = b'.hash := by
  intro N
  have run := (sampleValidator_sample (.plain 0) [1] 1).handle_proposal rfl "a" 0
  obtain ⟨-, count, -⟩ := sampleProvider_solo 1
  have fits : (sampleProvider [1] 1).validators.length < 2 ^ 63 := by rw [count]; decide
  have voted : N.VotedFor (sampleProvider [1] 1) ∅ (sampleBlock (.plain 0) "a").hash 0 := by
    refine .inr ⟨0, soloCluster_honest, (sampleProvider [1] 1).signVote
      (sealedGenesis (.plain 0)).hash 1 0 .prevote (sampleBlock (.plain 0) "a").hash, ?_, rfl, rfl⟩
    simp [N, run, votes, log, Event.ballot]
  obtain ⟨c, certified⟩ := exists_certified (I := symbolicIdeal 48) fits
    ⟨{0}, by simp [count], by simp [(sampleProvider_solo 1).1], by simpa using voted⟩
  have valid : (sampleBlock (.plain 0) "a").isValid (.plain 0) = true := Block.isValid_iff.mpr rfl
  refine ⟨_, certified, valid, fun b' valid' certified' height => ?_⟩
  refine agreement_along_runs (I := symbolicIdeal 48) (X := .plain 0) ?_ fits
    (by simp) (by simp [count]) (Externals.plain_contentHash_injective 0)
    (soloCluster_start (.plain 0))
    ((Reaches.refl _).tail (0, .proposal (sampleBlock (.plain 0) "a") 0) ?_
      ⟨soloCluster_honest, trivial, rfl⟩) valid valid' certified certified' height
  · simp [keys, sampleProvider]
  · intro r record
    cases record

/-- The only validator of a set drives two vote rounds at the genesis tip, for two candidates,
before either is appended. Both end with a certificate that every node accepts. -/
theorem two_blocks_certified :
    (sampleProvider [1] 1).keys.Nodup ∧
      Cluster.Start (.plain 0) (sampleProvider [1] 1) ∅ (soloCluster (.plain 0)) ∧
      ∃ N, Reaches (Cluster.Step (symbolicIdeal 48) (.plain 0) (sampleProvider [1] 1) ∅)
        anyStep (soloCluster (.plain 0)) N ∧
        ∃ b₁ b₂ : Block, .decided b₁ ∈ (N 0).history ∧ .decided b₂ ∈ (N 0).history ∧
          b₁.isValid (.plain 0) = true ∧ b₂.isValid (.plain 0) = true ∧
          N.Certified (symbolicIdeal 48) (sampleProvider [1] 1) ∅ b₁ ∧
          N.Certified (symbolicIdeal 48) (sampleProvider [1] 1) ∅ b₂ ∧
          b₁.index = b₂.index ∧ b₁.hash ≠ b₂.hash := by
  let v := sampleValidator (.plain 0) [1] 1
  let P := sampleProvider [1] 1
  let A := sampleBlock (.plain 0) "a"
  let A' := sampleBlock (.plain 0) "b"
  obtain ⟨single, count, leads⟩ := sampleProvider_solo 1
  have fits : P.validators.length < 2 ^ 63 := by rw [count]; decide
  have sample := sampleValidator_sample (.plain 0) [1] 1
  have valid (id : String) : (sampleBlock (.plain 0) id).isValid (.plain 0) = true :=
    Block.isValid_iff.mpr rfl
  -- the same round, run twice
  obtain ⟨sample₁, c₁, attested₁, voters₁, j₁, history₁⟩ := sample.solo_decides
    (symbolicIdeal 48) (valid "a") (leads _) single fits
  obtain ⟨-, c₂, attested₂, voters₂, j₂, history₂⟩ := sample₁.solo_decides
    (symbolicIdeal 48) (valid "b") (leads _) single fits
  rw [history₁, ← run_append] at history₂
  let inputs := v.soloInputs A ++ (v.run (.plain 0) (v.soloInputs A)).soloInputs A'
  have free : ∀ input ∈ inputs, ∀ N : Cluster _,
      N.Authentic (symbolicIdeal 48) P ∅ input := by
    simp [inputs, soloInputs, leadInputs, Cluster.Authentic]
  have run := reaches_run (X := .plain 0) soloCluster_honest free (soloCluster (.plain 0))
  let N : Cluster _ := Function.update (soloCluster (.plain 0)) 0 (v.run (.plain 0) inputs)
  have voted {hash : String} {i : Nat} (key : P.keyAt i = P.publicKey)
      (signed : ∃ vote ∈ (N 0).votes, vote.publicKey = P.publicKey ∧ vote.blockHash = hash) :
      N.VotedFor P ∅ hash i := by
    obtain ⟨vote, member, own, name⟩ := signed
    exact .inr ⟨0, soloCluster_honest, vote, member, own.trans key.symm, name⟩
  refine ⟨by simp [keys, sampleProvider], soloCluster_start _, N, run,
    { A with certificate := some c₁ }, { A' with certificate := some c₂ }, ?_, ?_, valid "a",
    valid "b", ?_, ?_, rfl,
    sampleBlock_hash_ne (Externals.plain_contentHash_injective 0) (by decide)⟩
  · simp [N, inputs, v, history₂, A, A']
  · simp [N, inputs, v, history₂, A, A']
  · refine certified_of_attested attested₁ fun i hi => voted (voters₁ i hi) ?_
    refine ⟨P.signVote v.ledger.chainId A.index 0 .precommit A.hash, ?_, rfl, rfl⟩
    simp [N, votes, inputs, v, history₂, Event.ballot, A, A', P]
  · refine certified_of_attested attested₂ fun i hi => voted (voters₂ i hi) ?_
    refine ⟨P.signVote (v.run (.plain 0) (v.soloInputs A)).ledger.chainId A'.index 0 .precommit
      A'.hash, ?_, rfl, rfl⟩
    simp [N, votes, inputs, v, history₂, Event.ballot, A, A', P]

end GlassChain
