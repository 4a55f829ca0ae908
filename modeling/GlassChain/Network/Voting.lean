import GlassChain.Library.Pins
import GlassChain.Library.Run
import GlassChain.Network.Registry

/-!
# A validator taking part in vote rounds

The three message handlers and the driver `run_vote_round`, cut at the points where it takes a lock
or waits. A node may run several drivers at once; between two of their steps any message may be
handled. `environment` stands for everything else the node does (blocks and chains received, local
commits, transactions): it may change the ledger and the projections in any way, and it leaves the
round state alone, as the source does. The history is a ghost: it records what was signed, which
prevote certificates were accepted, and how the chain grew.
-/

namespace GlassChain

open Library Function

variable {B : Multisig}

def Ledger.chainId (L : Ledger) : String := (L.chain.head?.map (·.hash)).getD ""

/-- The record a proposal continues: one of another height is dropped. -/
def takeRound (S : NodeState B) (height : Nat) : BftRound :=
  match S.bftRound with
  | some existing => if existing.height = height then existing else .new height
  | none => .new height

def validCandidate (X : Externals) (L : Ledger) (S : NodeState B) (block : Block) : Bool :=
  let chainsOk := match L.chain.getLast? with
    | some previous => (block.chainsTo X previous).isOk
    | none => false
  chainsOk && ((S.capabilityHistory.getD ⟨[]⟩).validateBlock X block).2.isOk

lemma chainsTo_of_validCandidate {X : Externals} {L : Ledger} {S : NodeState B} {block : Block}
    (valid : validCandidate X L S block = true) :
    ∃ previous, L.chain.getLast? = some previous ∧ block.chainsTo X previous = .ok () := by
  unfold validCandidate at valid
  cases last : L.chain.getLast? with
  | none => simp [last] at valid
  | some previous =>
    simp only [last, Bool.and_eq_true] at valid
    cases chains : block.chainsTo X previous with
    | error e => simp [chains, Except.isOk, Except.toBool] at valid
    | ok _ => exact ⟨previous, rfl, chains⟩

def handleProposal (X : Externals) (L : Ledger) (S : NodeState B) (block : Block) (round : Nat) :
    NodeState B × Option BftVote :=
  let record := { takeRound S block.index with round := round }
  if !record.locked.any (· != block.hash) && validCandidate X L S block then
    match deriveValidatorProvider X S with
    | (S, none) => ({ S with bftRound := some record }, none)
    | (S, some provider) =>
      ({ S with bftRound := some { record with proposal := some block } },
        some (provider.signVote L.chainId block.index round .prevote block.hash))
  else ({ S with bftRound := some record }, none)

/-- Phase 2: a prevote certificate justifies locking the hash and precommitting it. -/
def handlePrecommit (X : Externals) (L : Ledger) (S : NodeState B) (block : Block) (round : Nat)
    (prevoteCertificate : QuorumCertificate) : NodeState B × Option BftVote :=
  match S.bftRound with
  | none => (S, none)
  | some record =>
    if record.height ≠ block.index ∨ record.round ≠ round then (S, none)
    else match deriveValidatorProvider X S with
      | (S, none) => (S, none)
      | (S, some provider) =>
        match provider.verifyCertificate prevoteCertificate block with
        | .error _ => (S, none)
        | .ok () =>
          ({ S with bftRound := some { record with locked := some block.hash } },
            some (provider.signVote L.chainId block.index round .precommit block.hash))

/-- The leader's side of a vote: journal it; `true` when it goes on to the open channel. -/
def handleVote (X : Externals) (S : NodeState B) (vote : BftVote) : NodeState B × Bool :=
  match deriveValidatorProvider X S with
  | (S, none) => (S, false)
  | (S, some provider) =>
    match provider.verifyVote vote with
    | .error _ => (S, false)
    | .ok _ =>
      let receipts := if 1 < vote.height then S.bftReceipts.retireBelow (vote.height - 1)
        else S.bftReceipts
      let (receipts, proof) := receipts.record vote
      let detected := (proof.filter fun p => (p.verify B).isOk).toList
      ({ S with bftReceipts := receipts, equivocations := S.equivocations ++ detected }, true)

/-- Where `run_vote_round` stands between two lock acquisitions. -/
inductive Stage (B : Multisig) where
  | entering
  | derived (provider : BftConsensusProvider B) (isLeader : Bool)
  | registered (provider : BftConsensusProvider B)
  | prevoting (provider : BftConsensusProvider B) (genesisHash : String)
  | precommitting (provider : BftConsensusProvider B) (genesisHash : String)

/-- A running `run_vote_round`; the inbox is its vote channel. -/
structure Driver (B : Multisig) where
  block : Block
  round : Nat
  stage : Stage B
  inbox : List BftVote

namespace Driver

def new (X : Externals) (block : Block) : Driver B :=
  ⟨{ block with hash := block.calculateHash X }, 0, .entering, []⟩

def derive (X : Externals) (S : NodeState B) (d : Driver B) :
    NodeState B × Except CoreError (Driver B) :=
  match deriveValidatorProvider X S with
  | (S, none) => (S, .error (.invalidTransaction "bft: no validator set available"))
  | (S, some provider) => match provider.localIndex with
    | none => (S, .error (.invalidTransaction
        "bft: this node's key is not in the derived validator set"))
    | some localIndex =>
      let isLeader := proposerIndex provider d.block.index d.round == localIndex
      (S, .ok { d with stage := .derived provider isLeader })

def register (S : NodeState B) (id : Nat) (d : Driver B) (provider : BftConsensusProvider B)
    (isLeader : Bool) : NodeState B × Except CoreError (Driver B) :=
  let locked := (S.bftRound.filter (·.height == d.block.index)).bind (·.locked)
  let record : BftRound :=
    ⟨d.block.index, d.round, locked, if isLeader then some d.block else none⟩
  if isLeader then
    ({ S with bftRound := some record, bftVoteTx := some id },
      .ok { d with stage := .registered provider, inbox := [] })
  else
    ({ S with bftRound := some record, bftVoteTx := none }, .error (.invalidTransaction
      "bft: not the round leader — waiting for the committed block"))

def seed (d : Driver B) (provider : BftConsensusProvider B) (genesisHash : String)
    (phase : VotePhase) : BftVote :=
  provider.signVote genesisHash d.block.index d.round phase d.block.hash

/-- The next round after a timeout, unless the budget is spent. -/
def retry (d : Driver B) (message : String) : Except CoreError (Driver B) :=
  if maxRounds ≤ d.round + 1 then .error (.invalidTransaction message)
  else .ok { d with round := d.round + 1, stage := .entering }

def certificate (d : Driver B) (provider : BftConsensusProvider B) (votes : List BftVote) :
    Except CoreError QuorumCertificate := do
  let (signersBitmap, aggregateSignature) ← provider.aggregateVotes votes
  return ⟨d.block.index, d.block.hash, signersBitmap, aggregateSignature, .bls12381⟩

def prevotes (d : Driver B) (provider : BftConsensusProvider B) (genesisHash : String)
    (batches : List (List BftVote)) : List BftVote :=
  collectPhaseVotes provider provider.quorum (d.seed provider genesisHash .prevote) batches

def precommits (d : Driver B) (provider : BftConsensusProvider B) (genesisHash : String)
    (batches : List (List BftVote)) : List BftVote :=
  collectPhaseVotes provider provider.quorum (d.seed provider genesisHash .precommit) batches

end Driver

/-- What a node did: it signed a vote, accepted a prevote certificate, broadcast one, saw its chain
grow, or ended a vote round with a certified block. -/
inductive Event where
  | signed (vote : BftVote)
  | certified (height round : Nat) (hash : String)
  | justified (block : Block) (round : Nat) (prevoteCertificate : QuorumCertificate)
  | grew (before after : Nat)
  | decided (block : Block)

structure Validator (B : Multisig) where
  ledger : Ledger
  state : NodeState B
  drivers : Nat → Option (Driver B)
  nextDriver : Nat
  history : List Event

inductive Input (B : Multisig) where
  | proposal (block : Block) (round : Nat)
  | precommit (block : Block) (round : Nat) (prevoteCertificate : QuorumCertificate)
  | vote (vote : BftVote)
  | drive (block : Block)
  | derive (id : Nat)
  | register (id : Nat)
  | propose (id : Nat)
  | prevotes (id : Nat) (batches : List (List BftVote))
  | precommits (id : Nat) (batches : List (List BftVote))
  | environment (ledger : Ledger) (commit : CommitState)

namespace Validator

variable (v : Validator B)

def setDriver (id : Nat) (result : Except CoreError (Driver B)) : Validator B :=
  { v with drivers := Function.update v.drivers id result.toOption }

def removeDriver (id : Nat) : Validator B :=
  { v with drivers := Function.update v.drivers id none }

/-- A vote for the driver whose channel is open; a full channel drops it. -/
def deliver (v : Validator B) (vote : BftVote) : Validator B :=
  match v.state.bftVoteTx with
  | none => v
  | some id => match v.drivers id with
    | none => v
    | some d =>
      if d.inbox.length < voteChannelCap then
        { v with drivers := Function.update v.drivers id
                  (some { d with inbox := d.inbox ++ [vote] }) }
      else v

def closeChannel : Validator B :=
  { v with state := { v.state with bftVoteTx := none } }

def log (v : Validator B) (events : List Event) : Validator B :=
  { v with history := v.history ++ events }

def onProposal (X : Externals) (v : Validator B) (block : Block) (round : Nat) : Validator B :=
  match handleProposal X v.ledger v.state block round with
  | (S, none) => { v with state := S }
  | (S, some vote) => { v with state := S }.log [.signed vote]

def onPrecommit (X : Externals) (v : Validator B) (block : Block) (round : Nat)
    (prevoteCertificate : QuorumCertificate) : Validator B :=
  match handlePrecommit X v.ledger v.state block round prevoteCertificate with
  | (S, none) => { v with state := S }
  | (S, some vote) =>
    { v with state := S }.log [.certified block.index round block.hash, .signed vote]

def onVote (X : Externals) (v : Validator B) (vote : BftVote) : Validator B :=
  match handleVote X v.state vote with
  | (S, false) => { v with state := S }
  | (S, true) => { v with state := S }.deliver vote

def onDrive (X : Externals) (v : Validator B) (block : Block) : Validator B :=
  { v with
    drivers := Function.update v.drivers v.nextDriver (some (.new X block))
    nextDriver := v.nextDriver + 1 }

def onDerive (X : Externals) (v : Validator B) (id : Nat) (d : Driver B) : Validator B :=
  match d.stage with
  | .entering => { v with state := (d.derive X v.state).1 }.setDriver id (d.derive X v.state).2
  | _ => v

def onRegister (id : Nat) (d : Driver B) : Validator B :=
  match d.stage with
  | .derived provider isLeader =>
    { v with state := (d.register v.state id provider isLeader).1 }.setDriver id
      (d.register v.state id provider isLeader).2
  | _ => v

def onPropose (id : Nat) (d : Driver B) : Validator B :=
  match d.stage with
  | .registered provider =>
    (v.setDriver id (.ok { d with stage := .prevoting provider v.ledger.chainId })).log
      [.signed (d.seed provider v.ledger.chainId .prevote)]
  | _ => v

/-- The prevote phase ends: the next round, or the certificate is broadcast and the precommit phase
begins. The channel stays open when aggregation fails. -/
def onPrevotes (id : Nat) (d : Driver B) (batches : List (List BftVote)) : Validator B :=
  match d.stage with
  | .prevoting provider genesisHash =>
    let next := { d with inbox := d.inbox.drop batches.flatten.length }
    if (d.prevotes provider genesisHash batches).length < provider.quorum then
      match next.retry "bft: quorum not reached within the round budget" with
      | .error e => (v.setDriver id (.error e)).closeChannel
      | .ok next => v.setDriver id (.ok next)
    else match d.certificate provider (d.prevotes provider genesisHash batches) with
      | .error e => v.setDriver id (.error e)
      | .ok certificate =>
        (v.setDriver id (.ok { next with stage := .precommitting provider genesisHash })).log
          [.justified d.block d.round certificate, .signed (d.seed provider genesisHash .precommit)]
  | _ => v

def onPrecommits (id : Nat) (d : Driver B) (batches : List (List BftVote)) : Validator B :=
  match d.stage with
  | .precommitting provider genesisHash =>
    let next := { d with inbox := d.inbox.drop batches.flatten.length }
    if (d.precommits provider genesisHash batches).length < provider.quorum then
      (v.setDriver id
        (next.retry "bft: precommit quorum not reached within the round budget")).closeChannel
    else match d.certificate provider (d.precommits provider genesisHash batches) with
      | .error e => (v.setDriver id (.error e)).closeChannel
      | .ok certificate =>
        (v.removeDriver id).closeChannel.log
          [.decided { d.block with certificate := some certificate }]
  | _ => v

def onDriver (id : Nat) (step : Driver B → Validator B) : Validator B :=
  match v.drivers id with
  | none => v
  | some d => step d

/-- One step. A driver ignores a step its stage does not allow, and collects only what its channel
holds. -/
def handle (X : Externals) (v : Validator B) : Input B → Validator B
  | .proposal block round => v.onProposal X block round
  | .precommit block round prevoteCertificate => v.onPrecommit X block round prevoteCertificate
  | .vote vote => v.onVote X vote
  | .drive block => v.onDrive X block
  | .derive id => v.onDriver id (v.onDerive X id)
  | .register id => v.onDriver id (v.onRegister id)
  | .propose id => v.onDriver id (v.onPropose id)
  | .prevotes id batches => v.onDriver id fun d =>
      if batches.flatten.isPrefixOf d.inbox then v.onPrevotes id d batches else v
  | .precommits id batches => v.onDriver id fun d =>
      if batches.flatten.isPrefixOf d.inbox then v.onPrecommits id d batches else v
  | .environment ledger commit =>
    { v with ledger := ledger, state := { v.state with toCommitState := commit } }.log
      [.grew v.ledger.chain.length ledger.chain.length]

end Validator

/-! ## What a step does

`Effect` lists, once, everything a step can do to the round record, the drivers and the votes; the
results about runs split on it and never unfold `handle`. -/

def Event.silent : Event → Bool
  | signed _ => false
  | certified .. => false
  | _ => true

def Driver.live (d : Driver B) : Bool :=
  match d.stage with
  | .entering => false
  | .derived .. => false
  | _ => true

def Driver.provider (d : Driver B) : Option (BftConsensusProvider B) :=
  match d.stage with
  | .entering => none
  | .derived provider _ => some provider
  | .registered provider => some provider
  | .prevoting provider _ => some provider
  | .precommitting provider _ => some provider

/-- One step of a driver: something reached its channel, the set was derived, the leader registered
the round, a phase began, or a phase timed out. -/
inductive Driver.Progress (X : Externals) (S : NodeState B) (d : Driver B) :
    Input B → Driver B → Prop
  | idle {input : Input B} (inbox : List BftVote) : Progress X S d input { d with inbox := inbox }
  | derived {id : Nat} {P : BftConsensusProvider B} {i : Nat}
      (found : (deriveValidatorProvider X S).2 = some P) (position : P.localIndex = some i) :
      Progress X S d (.derive id)
        { d with stage := .derived P (proposerIndex P d.block.index d.round == i) }
  | registered {id : Nat} {P : BftConsensusProvider B} (stage : d.stage = .derived P true) :
      Progress X S d (.register id) { d with stage := .registered P, inbox := [] }
  | advanced {input : Input B} {d' : Driver B} (live : d.live = true) (block : d'.block = d.block)
      (round : d'.round = d.round) (provider : d'.provider = d.provider) : Progress X S d input d'
  | retried {input : Input B} {d' : Driver B} (live : d.live = true) (block : d'.block = d.block)
      (round : d'.round = d.round + 1) (stage : d'.stage = .entering) : Progress X S d input d'

namespace Validator

/-- Every driver was just called, or continues one. -/
def DriversProgress (X : Externals) (v : Validator B) (input : Input B) (v' : Validator B) : Prop :=
  ∀ id d', v'.drivers id = some d' →
    (∃ block, d' = .new X block) ∨ ∃ d, v.drivers id = some d ∧ d.Progress X v.state input d'

def Holds (X : Externals) (v : Validator B) (P : BftConsensusProvider B) : Prop :=
  (deriveValidatorProvider X v.state).2 = some P ∨
    ∃ id d, v.drivers id = some d ∧ d.provider = some P

def Votes (X : Externals) (v : Validator B) (height round : Nat) (phase : VotePhase) (hash : String)
    (vote : BftVote) : Prop :=
  ∃ P chainId, v.Holds X P ∧ vote = P.signVote chainId height round phase hash

/-- The live drivers of `v'` were live in `v`, at the same round with the same block. -/
def KeepsDrivers (v v' : Validator B) : Prop :=
  ∀ id d', v'.drivers id = some d' → d'.live = true →
    ∃ d, v.drivers id = some d ∧ d.live = true ∧ d'.block = d.block ∧ d'.round = d.round

inductive Effect (X : Externals) (v v' : Validator B) : Input B → Prop
  | quiet {input : Input B} (events : List Event)
      (record : v'.state.bftRound = v.state.bftRound) (drivers : v.KeepsDrivers v')
      (silent : ∀ e ∈ events, e.silent = true) (history : v'.history = v.history ++ events) :
      Effect X v v' input
  | prevoted {block : Block} {round : Nat} {ballot : BftVote}
      (unlocked : ∀ hash, (takeRound v.state block.index).locked = some hash → hash = block.hash)
      (valid : validCandidate X v.ledger v.state block = true)
      (record : v'.state.bftRound = some
        { takeRound v.state block.index with round := round, proposal := some block })
      (drivers : v.KeepsDrivers v')
      (vote : v.Votes X block.index round .prevote block.hash ballot)
      (history : v'.history = v.history ++ [.signed ballot]) :
      Effect X v v' (.proposal block round)
  | abstained {block : Block} {round : Nat}
      (record : v'.state.bftRound = some { takeRound v.state block.index with round := round })
      (drivers : v.KeepsDrivers v') (history : v'.history = v.history) :
      Effect X v v' (.proposal block round)
  | precommitted {block : Block} {round : Nat} {certificate : QuorumCertificate} {r : BftRound}
      {ballot : BftVote} (before : v.state.bftRound = some r) (height : r.height = block.index)
      (current : r.round = round)
      (record : v'.state.bftRound = some { r with locked := some block.hash })
      (drivers : v.KeepsDrivers v')
      (vote : v.Votes X block.index round .precommit block.hash ballot)
      (history : v'.history =
        v.history ++ [.certified block.index round block.hash, .signed ballot]) :
      Effect X v v' (.precommit block round certificate)
  | registered {id : Nat} {d : Driver B} {provider : BftConsensusProvider B} {isLeader : Bool}
      (driver : v.drivers id = some d) (stage : d.stage = .derived provider isLeader)
      (record : v'.state.bftRound = some ⟨d.block.index, d.round,
        (v.state.bftRound.filter (·.height == d.block.index)).bind (·.locked),
        if isLeader then some d.block else none⟩)
      (drivers : ∀ id' d', v'.drivers id' = some d' → d'.live = true →
        (∃ d₀, v.drivers id' = some d₀ ∧ d₀.live = true ∧ d'.block = d₀.block ∧
          d'.round = d₀.round) ∨
        isLeader = true ∧ d'.block = d.block ∧ d'.round = d.round)
      (history : v'.history = v.history) : Effect X v v' (.register id)
  | seeded {input : Input B} {id : Nat} {d : Driver B} {phase : VotePhase} {ballot : BftVote}
      (events : List Event)
      (cause : input = .propose id ∧ phase = .prevote ∨
        ∃ batches, input = .prevotes id batches ∧ phase = .precommit)
      (driver : v.drivers id = some d) (live : d.live = true)
      (record : v'.state.bftRound = v.state.bftRound) (drivers : v.KeepsDrivers v')
      (vote : v.Votes X d.block.index d.round phase d.block.hash ballot)
      (silent : ∀ e ∈ events, e.silent = true)
      (history : v'.history = v.history ++ (events ++ [.signed ballot])) : Effect X v v' input

end Validator

/-! The parts of a step. -/

lemma deriveValidatorProvider_frame (X : Externals) (S : NodeState B) :
    ∃ cache, (deriveValidatorProvider X S).1 = { S with bftValidatorCache := cache } := by
  by_cases none : S.consensus = none
  · have run : deriveValidatorProvider X S = (S, .none) := by
      unfold deriveValidatorProvider
      rw [none]
    exact ⟨S.bftValidatorCache, by rw [run]⟩
  · obtain ⟨attached, consensus⟩ := Option.ne_none_iff_exists'.mp none
    obtain ⟨P, -, run⟩ | ⟨-, run⟩ | ⟨-, P, -, run⟩ | ⟨-, e, -, run⟩ :=
      deriveValidatorProvider_cases (X := X) consensus
    · exact ⟨S.bftValidatorCache, by rw [run]⟩
    · exact ⟨S.bftValidatorCache, by rw [run]⟩
    · exact ⟨_, by rw [run]⟩
    · exact ⟨S.bftValidatorCache, by rw [run]⟩

@[simp]
lemma deriveValidatorProvider_bftRound (X : Externals) (S : NodeState B) :
    (deriveValidatorProvider X S).1.bftRound = S.bftRound := by
  obtain ⟨cache, frame⟩ := deriveValidatorProvider_frame X S
  rw [frame]

lemma handleVote_frame (X : Externals) (S : NodeState B) (vote : BftVote) :
    ∃ receipts proofs, (handleVote X S vote).1 = { (deriveValidatorProvider X S).1 with
      bftReceipts := receipts
      equivocations := proofs } := by
  unfold handleVote
  rcases deriveValidatorProvider X S with ⟨S', _ | P⟩
  · exact ⟨_, _, rfl⟩
  · cases verified : P.verifyVote vote <;> simp only [verified] <;> exact ⟨_, _, rfl⟩

namespace Validator

variable {X : Externals} {v v' : Validator B} {id : Nat} {d : Driver B}

/-- A proposal sets the record, with the block and a prevote where the block is valid, no other hash
is locked and the node is a validator. -/
theorem onProposal_cases (X : Externals) (v : Validator B) (block : Block) (round : Nat) :
    v.onProposal X block round = { v with state := { v.state with
      bftRound := some { takeRound v.state block.index with round := round } } } ∨
    ∃ S provider, deriveValidatorProvider X v.state = (S, provider) ∧
      (v.onProposal X block round = { v with state := { S with
        bftRound := some { takeRound v.state block.index with round := round } } } ∨
      ∃ P, provider = some P ∧
        (takeRound v.state block.index).locked.any (· != block.hash) = false ∧
        validCandidate X v.ledger v.state block = true ∧
        v.onProposal X block round = Validator.log { v with state := { S with
          bftRound := some { takeRound v.state block.index with
            round := round
            proposal := some block } } }
          [.signed (P.signVote v.ledger.chainId block.index round .prevote block.hash)]) := by
  unfold onProposal handleProposal
  by_cases ok : (!(takeRound v.state block.index).locked.any (· != block.hash) &&
      validCandidate X v.ledger v.state block) = true
  · simp only [if_pos ok]
    rw [Bool.and_eq_true, Bool.not_eq_true'] at ok
    rcases deriveValidatorProvider X v.state with ⟨S, _ | P⟩
    · exact .inr ⟨S, none, rfl, .inl rfl⟩
    · exact .inr ⟨S, some P, rfl, .inr ⟨P, rfl, ok.1, ok.2, rfl⟩⟩
  · exact .inl (by simp only [if_neg ok])

/-- A prevote certificate is ignored, or it locks the hash of the record's round. -/
theorem onPrecommit_cases (X : Externals) (v : Validator B) (block : Block) (round : Nat)
    (certificate : QuorumCertificate) :
    v.onPrecommit X block round certificate = v ∨
    ∃ S provider, deriveValidatorProvider X v.state = (S, provider) ∧
      (v.onPrecommit X block round certificate = { v with state := S } ∨
      ∃ P r, provider = some P ∧ v.state.bftRound = some r ∧ r.height = block.index ∧
        r.round = round ∧
        v.onPrecommit X block round certificate = Validator.log { v with state := { S with
          bftRound := some { r with locked := some block.hash } } }
          [.certified block.index round block.hash,
            .signed (P.signVote v.ledger.chainId block.index round .precommit block.hash)]) := by
  unfold onPrecommit handlePrecommit
  rcases before : v.state.bftRound with _ | r
  · exact .inl rfl
  by_cases other : r.height ≠ block.index ∨ r.round ≠ round
  · exact .inl (by simp only [if_pos other])
  · simp only [if_neg other]
    obtain ⟨height, current⟩ := not_or.mp other
    rcases deriveValidatorProvider X v.state with ⟨S, _ | P⟩
    · exact .inr ⟨S, none, rfl, .inl rfl⟩
    · cases verified : P.verifyCertificate certificate block with
      | error e => exact .inr ⟨S, some P, rfl, .inl (by simp only [verified])⟩
      | ok _ => exact .inr ⟨S, some P, rfl, .inr ⟨P, r, rfl, rfl, not_not.mp height,
          not_not.mp current, by simp only [verified]⟩⟩

/-- How a prevote phase ends: not at all in another stage, with the next round or without one, with
an aggregation that fails, or with the precommit phase. -/
theorem onPrevotes_cases (v : Validator B) (id : Nat) (d : Driver B)
    (batches : List (List BftVote)) :
    v.onPrevotes id d batches = v ∨ ∃ provider genesisHash,
      d.stage = .prevoting provider genesisHash ∧
      ((∃ e, v.onPrevotes id d batches = (v.setDriver id (.error e)).closeChannel) ∨
      (∃ next, { d with inbox := d.inbox.drop batches.flatten.length }.retry
          "bft: quorum not reached within the round budget" = .ok next ∧
        v.onPrevotes id d batches = v.setDriver id (.ok next)) ∨
      (∃ e, v.onPrevotes id d batches = v.setDriver id (.error e)) ∨
      ∃ certificate, v.onPrevotes id d batches = (v.setDriver id (.ok { d with
          inbox := d.inbox.drop batches.flatten.length
          stage := .precommitting provider genesisHash })).log
          [.justified d.block d.round certificate,
            .signed (d.seed provider genesisHash .precommit)]) := by
  unfold onPrevotes
  split
  · rename_i provider genesisHash stage
    refine .inr ⟨provider, genesisHash, stage, ?_⟩
    dsimp only
    split
    · split
      · exact .inl ⟨_, rfl⟩
      · rename_i next retried
        exact .inr (.inl ⟨next, retried, rfl⟩)
    · split
      · exact .inr (.inr (.inl ⟨_, rfl⟩))
      · exact .inr (.inr (.inr ⟨_, rfl⟩))
  · exact .inl rfl

/-- How a precommit phase ends: not at all in another stage, without a quorum, with an aggregation
that fails, or with the block. -/
theorem onPrecommits_cases (v : Validator B) (id : Nat) (d : Driver B)
    (batches : List (List BftVote)) :
    v.onPrecommits id d batches = v ∨ ∃ provider genesisHash,
      d.stage = .precommitting provider genesisHash ∧
      (v.onPrecommits id d batches = (v.setDriver id
          ({ d with inbox := d.inbox.drop batches.flatten.length }.retry
            "bft: precommit quorum not reached within the round budget")).closeChannel ∨
      (∃ e, v.onPrecommits id d batches = (v.setDriver id (.error e)).closeChannel) ∨
      ∃ certificate,
        provider.quorum ≤ (d.precommits provider genesisHash batches).length ∧
        d.certificate provider (d.precommits provider genesisHash batches) = .ok certificate ∧
        v.onPrecommits id d batches = (v.removeDriver id).closeChannel.log
          [.decided { d.block with certificate := some certificate }]) := by
  unfold onPrecommits
  split
  · rename_i provider genesisHash stage
    refine .inr ⟨provider, genesisHash, stage, ?_⟩
    dsimp only
    split
    · exact .inl rfl
    · rename_i enough
      split
      · exact .inr (.inl ⟨_, rfl⟩)
      · rename_i certificate made
        exact .inr (.inr ⟨certificate, Nat.not_lt.mp enough, made, rfl⟩)
  · exact .inl rfl

lemma deliver_frame (v : Validator B) (vote : BftVote) :
    ∃ drivers, v.deliver vote = { v with drivers := drivers } := by
  unfold deliver
  repeat' split
  all_goals exact ⟨_, rfl⟩

lemma onVote_frame (X : Externals) (v : Validator B) (vote : BftVote) : ∃ drivers,
    v.onVote X vote = { v with state := (handleVote X v.state vote).1, drivers := drivers } := by
  unfold onVote
  rcases handleVote X v.state vote with ⟨S, _ | _⟩
  · exact ⟨_, rfl⟩
  · exact deliver_frame { v with state := S } vote

lemma derive_state (X : Externals) (S : NodeState B) (d : Driver B) :
    (d.derive X S).1 = (deriveValidatorProvider X S).1 := by
  unfold Driver.derive
  rcases deriveValidatorProvider X S with ⟨S', _ | P⟩
  · rfl
  · cases position : P.localIndex <;> simp only [position]

/-- A step of a driver does nothing, or what it does to the driver. -/
theorem onDriver_of {motive : Validator B → Prop} {step : Driver B → Validator B} (same : motive v)
    (steps : ∀ d, v.drivers id = some d → motive (step d)) : motive (v.onDriver id step) := by
  unfold onDriver
  cases driver : v.drivers id with
  | none => exact same
  | some d => exact steps d driver

namespace DriversProgress

variable {input : Input B}

lemma of_eq (same : v'.drivers = v.drivers) : v.DriversProgress X input v' :=
  fun _ d hd => .inr ⟨d, same ▸ hd, .idle d.inbox⟩

lemma of_update {result : Option (Driver B)}
    (updated : v'.drivers = Function.update v.drivers id result)
    (step : ∀ d', result = some d' →
      (∃ block, d' = .new X block) ∨ ∃ d, v.drivers id = some d ∧ d.Progress X v.state input d') :
    v.DriversProgress X input v' := by
  intro j d' hd'
  rw [updated] at hd'
  by_cases same : j = id
  · subst same
    rw [update_self] at hd'
    exact step d' hd'
  · rw [update_of_ne same] at hd'
    exact .inr ⟨d', hd', .idle d'.inbox⟩

lemma of_step {next : Driver B} (driver : v.drivers id = some d)
    (updated : v'.drivers = Function.update v.drivers id (some next))
    (step : d.Progress X v.state input next) : v.DriversProgress X input v' := by
  refine of_update updated fun d' hd' => ?_
  cases hd'
  exact .inr ⟨d, driver, step⟩

lemma of_error (updated : v'.drivers = Function.update v.drivers id none) :
    v.DriversProgress X input v' :=
  of_update updated fun _ none => by cases none

lemma of_retry {inbox : List BftVote} {message : String} (driver : v.drivers id = some d)
    (live : d.live = true) (updated : v'.drivers = Function.update v.drivers id
      (Driver.retry { d with inbox := inbox } message).toOption) :
    v.DriversProgress X input v' := by
  unfold Driver.retry at updated
  split at updated
  · exact of_error updated
  · exact of_step driver updated (.retried live rfl rfl rfl)

/-- No driver becomes live but by registering. -/
theorem keepsDrivers (progress : v.DriversProgress X input v')
    (other : ∀ id, input ≠ .register id) : v.KeepsDrivers v' := by
  intro id d' hd' live
  obtain ⟨block, rfl⟩ | ⟨d, hd, step⟩ := progress id d' hd'
  · cases live
  · cases step with
    | idle inbox => exact ⟨d, hd, live, rfl, rfl⟩
    | derived => cases live
    | registered => exact absurd rfl (other _)
    | advanced before block round => exact ⟨d, hd, before, block, round⟩
    | retried _ _ _ stage => simp [Driver.live, stage] at live

end DriversProgress

lemma onVote_progress (vote : BftVote) : v.DriversProgress X (.vote vote) (v.onVote X vote) := by
  unfold onVote
  rcases handleVote X v.state vote with ⟨S, _ | _⟩
  · exact .of_eq rfl
  · simp only [deliver]
    split
    · exact .of_eq rfl
    · split
      · exact .of_eq rfl
      · rename_i driver
        split
        · exact .of_step driver rfl (.idle _)
        · exact .of_eq rfl

section

variable (driver : v.drivers id = some d)

include driver

lemma onDerive_progress : v.DriversProgress X (.derive id) (v.onDerive X id d) := by
  unfold onDerive
  split
  · unfold Driver.derive
    rcases derived : deriveValidatorProvider X v.state with ⟨S, _ | P⟩
    · exact .of_error rfl
    · cases position : P.localIndex with
      | none =>
        simp only [position]
        exact .of_error rfl
      | some i =>
        simp only [position]
        exact .of_step driver rfl (.derived (by rw [derived]) position)
  · exact .of_eq rfl

lemma onRegister_progress : v.DriversProgress X (.register id) (v.onRegister id d) := by
  unfold onRegister
  split
  · rename_i provider isLeader stage
    cases isLeader with
    | true => exact .of_step driver rfl (.registered stage)
    | false => exact .of_error rfl
  · exact .of_eq rfl

lemma onPropose_progress : v.DriversProgress X (.propose id) (v.onPropose id d) := by
  unfold onPropose
  split
  · rename_i provider stage
    exact .of_step driver rfl
      (.advanced (by rw [Driver.live, stage]) rfl rfl (by simp [Driver.provider, stage]))
  · exact .of_eq rfl

lemma onPrevotes_progress (batches : List (List BftVote)) :
    v.DriversProgress X (.prevotes id batches) (v.onPrevotes id d batches) := by
  obtain run | ⟨provider, genesisHash, stage, ⟨e, run⟩ | ⟨next, retried, run⟩ | ⟨e, run⟩ |
    ⟨certificate, run⟩⟩ := onPrevotes_cases v id d batches <;> rw [run]
  · exact .of_eq rfl
  · exact .of_error rfl
  · exact .of_retry driver (by rw [Driver.live, stage]) (by rw [retried]; rfl)
  · exact .of_error rfl
  · exact .of_step driver rfl
      (.advanced (by rw [Driver.live, stage]) rfl rfl (by simp [Driver.provider, stage]))

lemma onPrecommits_progress (batches : List (List BftVote)) :
    v.DriversProgress X (.precommits id batches) (v.onPrecommits id d batches) := by
  obtain run | ⟨provider, genesisHash, stage, run | ⟨e, run⟩ | ⟨certificate, -, -, run⟩⟩ :=
    onPrecommits_cases v id d batches <;> rw [run]
  · exact .of_eq rfl
  · exact .of_retry driver (by rw [Driver.live, stage]) rfl
  · exact .of_error rfl
  · exact .of_error rfl

end

lemma handle_progress (X : Externals) (v : Validator B) (input : Input B) :
    v.DriversProgress X input (v.handle X input) := by
  cases input with
  | proposal block round =>
    simp only [handle, onProposal]
    split <;> exact .of_eq rfl
  | precommit block round certificate =>
    simp only [handle, onPrecommit]
    split <;> exact .of_eq rfl
  | vote vote => exact onVote_progress vote
  | drive block =>
    refine .of_update rfl fun d' hd' => ?_
    cases hd'
    exact .inl ⟨block, rfl⟩
  | derive id => exact onDriver_of (.of_eq rfl) fun d driver => onDerive_progress driver
  | register id => exact onDriver_of (.of_eq rfl) fun d driver => onRegister_progress driver
  | propose id => exact onDriver_of (.of_eq rfl) fun d driver => onPropose_progress driver
  | prevotes id batches =>
    refine onDriver_of (.of_eq rfl) fun d driver => ?_
    split
    · exact onPrevotes_progress driver batches
    · exact .of_eq rfl
  | precommits id batches =>
    refine onDriver_of (.of_eq rfl) fun d driver => ?_
    split
    · exact onPrecommits_progress driver batches
    · exact .of_eq rfl
  | environment ledger commit => exact .of_eq rfl

lemma Effect.none {input : Input B} {S : NodeState B} (record : S.bftRound = v.state.bftRound) :
    v.Effect X { v with state := S } input :=
  .quiet [] record (fun _ d hd live => ⟨d, hd, live, rfl, rfl⟩) (by simp) (by simp)

lemma onProposal_effect {block : Block} {round : Nat}
    (drivers : v.KeepsDrivers (v.onProposal X block round)) :
    v.Effect X (v.onProposal X block round) (.proposal block round) := by
  obtain run | ⟨S, provider, derived, run | ⟨P, rfl, unlocked, valid, run⟩⟩ :=
    onProposal_cases X v block round <;> rw [run] at drivers ⊢
  · exact .abstained rfl drivers rfl
  · exact .abstained rfl drivers rfl
  · refine .prevoted ?_ valid rfl drivers ⟨P, _, .inl (by rw [derived]), rfl⟩ rfl
    intro hash locked
    simpa [locked] using unlocked

lemma onPrecommit_effect {block : Block} {round : Nat} {certificate : QuorumCertificate}
    (drivers : v.KeepsDrivers (v.onPrecommit X block round certificate)) :
    v.Effect X (v.onPrecommit X block round certificate) (.precommit block round certificate) := by
  have frame := deriveValidatorProvider_bftRound X v.state
  obtain run | ⟨S, provider, derived, run | ⟨P, r, rfl, before, height, current, run⟩⟩ :=
    onPrecommit_cases X v block round certificate <;> rw [run] at drivers ⊢
  · exact .none rfl
  · rw [derived] at frame
    exact .none frame
  · exact .precommitted before height current rfl drivers ⟨P, _, .inl (by rw [derived]), rfl⟩ rfl

lemma onVote_effect {vote : BftVote} (drivers : v.KeepsDrivers (v.onVote X vote)) :
    v.Effect X (v.onVote X vote) (.vote vote) := by
  obtain ⟨_, run⟩ := onVote_frame X v vote
  obtain ⟨_, _, handled⟩ := handleVote_frame X v.state vote
  rw [run, handled] at drivers ⊢
  exact .quiet [] (deriveValidatorProvider_bftRound X v.state) drivers (by simp) (by simp)

lemma onDerive_effect (drivers : v.KeepsDrivers (v.onDerive X id d)) :
    v.Effect X (v.onDerive X id d) (.derive id) := by
  refine .quiet [] ?_ drivers (by simp) ?_
  all_goals
    unfold onDerive
    split <;> simp [setDriver, derive_state]

lemma onRegister_effect (driver : v.drivers id = some d) :
    v.Effect X (v.onRegister id d) (.register id) := by
  unfold onRegister
  split
  · rename_i provider isLeader stage
    have updated {j : Nat} {d' : Driver B} {result : Option (Driver B)}
        (h : Function.update v.drivers id result j = some d') :
        v.drivers j = some d' ∨ result = some d' := by
      by_cases same : j = id
      · subst same
        exact .inr (by rwa [update_self] at h)
      · exact .inl (by rwa [update_of_ne same] at h)
    cases isLeader with
    | true =>
      refine .registered driver stage rfl (fun j d' hd' live => ?_) rfl
      refine (updated hd').imp (fun old => ⟨d', old, live, rfl, rfl⟩) fun new => ?_
      cases new
      exact ⟨rfl, rfl, rfl⟩
    | false =>
      refine .registered driver stage rfl (fun j d' hd' live => ?_) rfl
      refine .inl ((updated hd').elim (fun old => ⟨d', old, live, rfl, rfl⟩) fun new => ?_)
      cases new
  · exact .none rfl

lemma onPropose_effect (driver : v.drivers id = some d)
    (drivers : v.KeepsDrivers (v.onPropose id d)) : v.Effect X (v.onPropose id d) (.propose id) := by
  unfold onPropose at drivers ⊢
  split at drivers
  · rename_i provider stage
    exact .seeded [] (.inl ⟨rfl, rfl⟩) driver (by simp [Driver.live, stage]) rfl drivers
      ⟨provider, _, .inr ⟨id, d, driver, by simp [Driver.provider, stage]⟩, rfl⟩ (by simp) rfl
  · exact .none rfl

lemma onPrevotes_effect (driver : v.drivers id = some d) {batches : List (List BftVote)}
    (drivers : v.KeepsDrivers (v.onPrevotes id d batches)) :
    v.Effect X (v.onPrevotes id d batches) (.prevotes id batches) := by
  obtain run | ⟨provider, genesisHash, stage, ⟨e, run⟩ | ⟨next, retried, run⟩ | ⟨e, run⟩ |
    ⟨certificate, run⟩⟩ := onPrevotes_cases v id d batches <;> rw [run] at drivers ⊢
  · exact .none rfl
  · exact .quiet [] rfl drivers (by simp) (by simp [setDriver, closeChannel])
  · exact .quiet [] rfl drivers (by simp) (by simp [setDriver])
  · exact .quiet [] rfl drivers (by simp) (by simp [setDriver])
  · exact .seeded [.justified d.block d.round certificate]
      (.inr ⟨batches, rfl, rfl⟩) driver (by simp [Driver.live, stage]) rfl drivers
      ⟨provider, _, .inr ⟨id, d, driver, by simp [Driver.provider, stage]⟩, rfl⟩
      (by simp [Event.silent]) rfl

lemma onPrecommits_effect {batches : List (List BftVote)}
    (drivers : v.KeepsDrivers (v.onPrecommits id d batches)) :
    v.Effect X (v.onPrecommits id d batches) (.precommits id batches) := by
  obtain run | ⟨provider, genesisHash, -, run | ⟨e, run⟩ | ⟨certificate, -, -, run⟩⟩ :=
    onPrecommits_cases v id d batches <;> rw [run] at drivers ⊢
  · exact .none rfl
  · exact .quiet [] rfl drivers (by simp) (by simp [setDriver, closeChannel])
  · exact .quiet [] rfl drivers (by simp) (by simp [setDriver, closeChannel])
  · exact .quiet _ rfl drivers (by simp [Event.silent]) rfl

lemma handle_effect (X : Externals) (v : Validator B) (input : Input B) :
    v.Effect X (v.handle X input) input := by
  have kept := (handle_progress X v input).keepsDrivers
  have onDriver {id : Nat} {step : Driver B → Validator B}
      (steps : ∀ d, v.drivers id = some d → v.Effect X (step d) input) :
      v.Effect X (v.onDriver id step) input :=
    onDriver_of (motive := fun v' => v.Effect X v' input) (.none rfl) steps
  cases input with
  | proposal block round => exact onProposal_effect (kept (by simp))
  | precommit block round certificate => exact onPrecommit_effect (kept (by simp))
  | vote vote => exact onVote_effect (kept (by simp))
  | drive block => exact .quiet [] rfl (kept (by simp)) (by simp) (by simp [handle, onDrive])
  | derive id => exact onDriver fun d driver =>
      onDerive_effect ((onDerive_progress driver).keepsDrivers (by simp))
  | register id => exact onDriver fun d driver => onRegister_effect driver
  | propose id => exact onDriver fun d driver =>
      onPropose_effect driver ((onPropose_progress (X := X) driver).keepsDrivers (by simp))
  | prevotes id batches =>
    refine onDriver fun d driver => ?_
    split
    · exact onPrevotes_effect driver
        ((onPrevotes_progress (X := X) driver batches).keepsDrivers (by simp))
    · exact .none rfl
  | precommits id batches =>
    refine onDriver fun d driver => ?_
    split
    · exact onPrecommits_effect
        ((onPrecommits_progress (X := X) driver batches).keepsDrivers (by simp))
    · exact .none rfl
  | environment ledger commit =>
    exact .quiet _ rfl (kept (by simp)) (by simp [Event.silent]) rfl

end Validator

/-- The state after a step: a vote was handled, or the round, the channel and what is committed were
set, with a derivation before or without one. -/
inductive NodeState.Lineage (X : Externals) (S : NodeState B) : Input B → NodeState B → Prop
  | voted (vote : BftVote) : Lineage X S (.vote vote) (handleVote X S vote).1
  | kept {input : Input B} (round : Option BftRound) (channel : Option Nat) (commit : CommitState) :
      Lineage X S input { S with toCommitState := commit, bftRound := round, bftVoteTx := channel }
  | derived {input : Input B} {D : NodeState B} {P : Option (BftConsensusProvider B)}
      (run : deriveValidatorProvider X S = (D, P)) (round : Option BftRound) :
      Lineage X S input { D with bftRound := round }

namespace NodeState.Lineage

variable {X : Externals} {S S' : NodeState B} {input : Input B}

lemma consensus (step : S.Lineage X input S') : S'.consensus = S.consensus := by
  obtain ⟨_, frame⟩ := deriveValidatorProvider_frame X S
  cases step with
  | voted vote =>
    obtain ⟨_, _, handled⟩ := handleVote_frame X S vote
    rw [handled, frame]
  | kept => rfl
  | @derived _ D _ run =>
    rw [run] at frame
    obtain rfl : D = _ := frame
    rfl

/-- The cache is filled by the derivation only. -/
theorem cache (step : S.Lineage X input S') : S'.bftValidatorCache = S.bftValidatorCache ∨
    S'.bftValidatorCache = (deriveValidatorProvider X S).1.bftValidatorCache := by
  cases step with
  | voted vote =>
    obtain ⟨_, _, handled⟩ := handleVote_frame X S vote
    exact .inr (by rw [handled])
  | kept => exact .inl rfl
  | derived run => exact .inr (by rw [run])

/-- Only votes reach the journal. -/
theorem journal (step : S.Lineage X input S') (other : ∀ vote, input ≠ .vote vote) :
    S'.bftReceipts = S.bftReceipts ∧ S'.equivocations = S.equivocations := by
  obtain ⟨_, frame⟩ := deriveValidatorProvider_frame X S
  cases step with
  | voted vote => exact absurd rfl (other vote)
  | kept => exact ⟨rfl, rfl⟩
  | @derived _ D _ run =>
    rw [run] at frame
    obtain rfl : D = _ := frame
    exact ⟨rfl, rfl⟩

end NodeState.Lineage

lemma Validator.handle_lineage (X : Externals) (v : Validator B) (input : Input B) :
    v.state.Lineage X input (v.handle X input).state := by
  have onDriver {id : Nat} {step : Driver B → Validator B}
      (steps : ∀ d, v.drivers id = some d → v.state.Lineage X input (step d).state) :
      v.state.Lineage X input (v.onDriver id step).state :=
    onDriver_of (motive := fun v' => v.state.Lineage X input v'.state) (.kept _ _ _) steps
  cases input with
  | proposal block round =>
    obtain run | ⟨S, provider, derived, run | ⟨P, -, -, -, run⟩⟩ :=
      onProposal_cases X v block round <;> rw [handle, run]
    · exact .kept _ _ _
    · exact .derived derived _
    · exact .derived derived _
  | precommit block round certificate =>
    obtain run | ⟨S, provider, derived, run | ⟨P, r, -, -, -, -, run⟩⟩ :=
      onPrecommit_cases X v block round certificate <;> rw [handle, run]
    · exact .kept _ _ _
    · exact .derived derived _
    · exact .derived derived _
  | vote vote =>
    obtain ⟨_, run⟩ := onVote_frame X v vote
    rw [handle, run]
    exact .voted vote
  | drive block => exact .kept _ _ _
  | derive id =>
    refine onDriver fun d _ => ?_
    unfold onDerive
    split
    · change v.state.Lineage X _ (d.derive X v.state).1
      rw [derive_state]
      exact .derived Prod.mk.eta.symm _
    · exact .kept _ _ _
  | register id =>
    refine onDriver fun d _ => ?_
    unfold onRegister
    split
    · rename_i isLeader _
      cases isLeader <;> exact .kept _ _ _
    · exact .kept _ _ _
  | propose id =>
    refine onDriver fun d _ => ?_
    unfold onPropose
    split <;> exact .kept _ _ _
  | prevotes id batches =>
    refine onDriver fun d _ => ?_
    split
    · obtain run | ⟨_, _, -, ⟨e, run⟩ | ⟨next, -, run⟩ | ⟨e, run⟩ | ⟨c, run⟩⟩ :=
        onPrevotes_cases v id d batches <;> rw [run] <;> exact .kept _ _ _
    · exact .kept _ _ _
  | precommits id batches =>
    refine onDriver fun d _ => ?_
    split
    · obtain run | ⟨_, _, -, run | ⟨e, run⟩ | ⟨c, -, -, run⟩⟩ :=
        onPrecommits_cases v id d batches <;> rw [run] <;> exact .kept _ _ _
    · exact .kept _ _ _
  | environment ledger commit => exact .kept _ _ _

end GlassChain
