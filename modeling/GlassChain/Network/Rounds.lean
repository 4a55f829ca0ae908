import GlassChain.Core.Certificate
import GlassChain.Network.Node

/-!
# Round state of a validator

The round record, the journal of verified votes, the proposer rotation, and the leader's vote
collection. `NodeState` is what the BFT handlers read and write under the node's state lock. Votes
reach the driver of a round through a channel; a driver is named by a number, and `bftVoteTx` is the
driver whose channel is open.
-/

namespace GlassChain

open Library

def maxRounds : Nat := 4

def voteChannelCap : Nat := 1024

def voteReceiptCap : Nat := 8192

structure BftRound where
  height : Nat
  round : Nat
  locked : Option String
  proposal : Option Block

def BftRound.new (height : Nat) : BftRound := ⟨height, 0, none, none⟩

/-- Round-robin over the canonical order; an empty set has one implicit slot. -/
def proposerSlot (height round validatorCount : Nat) : Nat :=
  let slots := max validatorCount 1
  (height % slots + round % slots) % slots

def proposerIndex {B : Multisig} (P : BftConsensusProvider B) (height round : Nat) : Nat :=
  proposerSlot height round P.validatorCount

inductive ReceiptAction where
  | insert
  | duplicate
  | equivocation
  deriving DecidableEq, Repr

def receiptAction (existing sameHash : Bool) : ReceiptAction :=
  if !existing then .insert else if sameHash then .duplicate else .equivocation

def shouldRetain (receiptHeight retireBelow : Nat) : Bool := retireBelow ≤ receiptHeight

abbrev ReceiptKey := Nat × Nat × VotePhase × Bytes

structure VoteReceipts where
  seen : AList fun _ : ReceiptKey => BftVote

namespace VoteReceipts

def retain (r : VoteReceipts) (height : Nat) : VoteReceipts :=
  ⟨r.seen.entries.filter fun e => shouldRetain e.1.1 height,
    r.seen.nodupKeys.sublist List.filter_sublist⟩

def retireBelow (r : VoteReceipts) (height : Nat) : VoteReceipts := r.retain height

/-- Eviction of lower heights from a full journal, and whether it freed anything. -/
def evictStale (r : VoteReceipts) (height : Nat) : VoteReceipts × Bool :=
  (r.retain height, (r.retain height).seen.entries.length < r.seen.entries.length)

def receiptKey (v : BftVote) : ReceiptKey := (v.height, v.round, v.phase, v.publicKey)

/-- Records a verified vote; a second hash in one context is returned as a proof. -/
def record (r : VoteReceipts) (v : BftVote) : VoteReceipts × Option EquivocationProof :=
  let existing := r.seen.lookup (receiptKey v)
  match receiptAction existing.isSome (existing.any (·.blockHash == v.blockHash)) with
  | .equivocation => (r, existing.map fun first =>
      ⟨v.height, v.round, v.phase, v.publicKey, first, v⟩)
  | .duplicate => (r, none)
  | .insert =>
    if r.seen.entries.length < voteReceiptCap then (⟨r.seen.insert (receiptKey v) v⟩, none)
    else match r.evictStale v.height with
      | (r, false) => (r, none)
      | (r, true) => (⟨r.seen.insert (receiptKey v) v⟩, none)

end VoteReceipts

section Collection

variable {B : Multisig}

/-- The cheap filters on one batch: context, voters already counted, and copies inside the batch. -/
def retainBatch (seed : BftVote) (votersSeen : List Bytes) :
    List Bytes → List BftVote → List BftVote
  | _, [] => []
  | batchVoters, v :: rest =>
    if v.height == seed.height && v.round == seed.round && v.phase == seed.phase &&
        !votersSeen.contains v.publicKey && !batchVoters.contains v.publicKey then
      v :: retainBatch seed votersSeen (v.publicKey :: batchVoters) rest
    else retainBatch seed votersSeen batchVoters rest

/-- Counts the verified votes of a filtered batch; `true` once the quorum is reached. -/
def countBatch (P : BftConsensusProvider B) (quorum : Nat) :
    List BftVote → List BftVote → List BftVote × Bool
  | collected, [] => (collected, false)
  | collected, v :: rest =>
    match P.verifyVote v with
    | .error _ => countBatch P quorum collected rest
    | .ok _ =>
      if (collected ++ [v]).length == quorum then (collected ++ [v], true)
      else countBatch P quorum (collected ++ [v]) rest

def collectBatches (P : BftConsensusProvider B) (quorum : Nat) (seed : BftVote) :
    List BftVote → List (List BftVote) → List BftVote
  | collected, [] => collected
  | collected, batch :: rest =>
    match countBatch P quorum collected
        (retainBatch seed (collected.map (·.publicKey)) [] batch) with
    | (collected, true) => collected
    | (collected, false) => collectBatches P quorum seed collected rest

/-- The votes of one phase. The seed counts when it verifies; `batches` is what arrived in time. -/
def collectPhaseVotes (P : BftConsensusProvider B) (quorum : Nat) (seed : BftVote)
    (batches : List (List BftVote)) : List BftVote :=
  collectBatches P quorum seed (if (P.verifyVote seed).isOk then [seed] else []) batches

end Collection

structure NodeState (B : Multisig) extends CommitState where
  consensus : Option (BftConsensusProvider B)
  bftValidatorCache : Option (UInt64 × BftConsensusProvider B)
  bftRound : Option BftRound
  bftReceipts : VoteReceipts
  equivocations : List EquivocationProof
  bftVoteTx : Option Nat

end GlassChain
