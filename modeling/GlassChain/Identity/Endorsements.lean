import GlassChain.Core.Authorization
import GlassChain.Identity.Revocation

/-!
# The endorsement engine

A proposal collects signatures, each a signed transaction with the name of an organization beside
it. The engine counts the entries that verify and bear a listed name. It asks neither whether a name
was counted before nor whether the transaction inside a signature is the one proposed, so an
approval speaks for as many organizations as the policy asks only where both happen to hold.
-/

namespace GlassChain

open List

structure SignedTransaction where
  transaction : Transaction
  signatureBytes : Bytes
  signerPublicKey : Bytes
  signerNodeId : String

def SignedTransaction.verify (X : Externals) (C : Ed25519) (s : SignedTransaction) :
    Except IdentityError Unit :=
  if s.signerPublicKey.length ≠ 32 ∨ C.validKey s.signerPublicKey = false then
    .error .invalidPublicKey
  else if s.signatureBytes.length ≠ 64 then .error .verificationFailed
  else if C.verify s.signerPublicKey (X.transactionJson s.transaction) s.signatureBytes then .ok ()
  else .error .verificationFailed

structure EndorsementSignature where
  signedTransaction : SignedTransaction
  orgName : String

def EndorsementSignature.verify (X : Externals) (C : Ed25519) (sig : EndorsementSignature) :
    Except IdentityError Unit :=
  sig.signedTransaction.verify X C

structure EndorsementPolicy where
  name : String
  endorserOrgNames : List String
  requiredCount : Nat

structure EndorsementProposal where
  transaction : Transaction
  proposalId : String
  signatures : List EndorsementSignature
  createdAt : Nat

namespace EndorsementProposal

def new (transaction : Transaction) (now : Nat) : EndorsementProposal :=
  ⟨transaction, s!"endorsement-{transaction.id}", [], now⟩

def addSignature (proposal : EndorsementProposal) (sig : EndorsementSignature) :
    EndorsementProposal :=
  { proposal with signatures := proposal.signatures ++ [sig] }

end EndorsementProposal

inductive EndorsementResult where
  | approved (proposalId : String) (endorserCount : Nat)
  | rejected (proposalId reason : String) (collected required : Nat)
  deriving DecidableEq, Repr

structure EndorsementEngine where
  policy : EndorsementPolicy

section Evaluation

variable (X : Externals) (C : Ed25519)

def EndorsementPolicy.counts (policy : EndorsementPolicy) (sig : EndorsementSignature) : Bool :=
  match sig.verify X C with
  | .ok () => policy.endorserOrgNames.contains sig.orgName
  | .error _ => false

def EndorsementPolicy.isSatisfiedBy (policy : EndorsementPolicy)
    (signatures : List EndorsementSignature) : Bool :=
  policy.requiredCount ≤ (signatures.filter (policy.counts X C)).length

/-- `debug` prints a list of names. -/
def EndorsementEngine.evaluate (debug : List String → String) (engine : EndorsementEngine)
    (proposal : EndorsementProposal) : EndorsementResult :=
  let validCount := proposal.signatures.foldl
    (fun count sig => if engine.policy.counts X C sig then count + 1 else count) 0
  if engine.policy.requiredCount ≤ validCount then .approved proposal.proposalId validCount
  else .rejected proposal.proposalId
    (s!"need {engine.policy.requiredCount} endorsements from orgs " ++
      s!"{debug engine.policy.endorserOrgNames}, got {validCount}")
    validCount engine.policy.requiredCount

def EndorsementPolicy.counted (policy : EndorsementPolicy) (proposal : EndorsementProposal) :
    List EndorsementSignature :=
  proposal.signatures.filter (policy.counts X C)

def EndorsementSignature.VerifiesOver (tx : Transaction) (sig : EndorsementSignature) : Prop :=
  { sig.signedTransaction with transaction := tx }.verify X C = .ok ()

/-- As many listed organizations as required have each signed the transaction of the proposal. -/
def EndorsementPolicy.Endorsed (policy : EndorsementPolicy) (proposal : EndorsementProposal) :
    Prop :=
  ∃ orgs : Finset String, policy.requiredCount ≤ orgs.card ∧
    ∀ org ∈ orgs, org ∈ policy.endorserOrgNames ∧ ∃ sig ∈ proposal.signatures,
      sig.orgName = org ∧ sig.VerifiesOver X C proposal.transaction

/-- What is counted is over the transaction of the proposal, and once for each name. -/
structure EndorsementPolicy.CountsOnce (policy : EndorsementPolicy)
    (proposal : EndorsementProposal) : Prop where
  own : ∀ sig ∈ policy.counted X C proposal, sig.VerifiesOver X C proposal.transaction
  distinct : ((policy.counted X C proposal).map EndorsementSignature.orgName).Nodup

end Evaluation

variable {X : Externals} {C : Ed25519} {debug : List String → String} {engine : EndorsementEngine}
  {policy : EndorsementPolicy} {proposal : EndorsementProposal} {proposalId : String}
  {endorserCount : Nat}

/-- The loop counts what the filter keeps. -/
theorem EndorsementEngine.evaluate_eq_approved :
    engine.evaluate X C debug proposal = .approved proposalId endorserCount ↔
      proposal.proposalId = proposalId ∧
        (engine.policy.counted X C proposal).length = endorserCount ∧
        engine.policy.requiredCount ≤ endorserCount := by
  have loop (signatures : List EndorsementSignature) (start : Nat) : signatures.foldl
        (fun count sig => if engine.policy.counts X C sig then count + 1 else count) start =
          start + (signatures.filter (engine.policy.counts X C)).length := by
    induction signatures generalizing start with
    | nil => rfl
    | cons sig rest ih =>
      rw [foldl_cons, ih, filter_cons]
      split
      · rw [length_cons]
        omega
      · rfl
  simp only [evaluate, EndorsementPolicy.counted, loop, Nat.zero_add]
  split
  · rw [EndorsementResult.approved.injEq]
    grind
  · grind

lemma EndorsementPolicy.listed_of_counts {sig : EndorsementSignature}
    (counts : policy.counts X C sig = true) : sig.orgName ∈ policy.endorserOrgNames := by
  unfold EndorsementPolicy.counts at counts
  split at counts
  · exact contains_iff_mem.mp counts
  · cases counts

namespace EndorsementPolicy

lemma CountsOnce.endorsed (once : policy.CountsOnce X C proposal)
    (enough : policy.requiredCount ≤ (policy.counted X C proposal).length) :
    policy.Endorsed X C proposal := by
  refine ⟨((policy.counted X C proposal).map EndorsementSignature.orgName).toFinset, ?_, ?_⟩
  · rwa [toFinset_card_of_nodup once.distinct, length_map]
  · intro org member
    obtain ⟨sig, counted, rfl⟩ := mem_map.mp (mem_toFinset.mp member)
    obtain ⟨collected, counts⟩ := mem_filter.mp counted
    exact ⟨listed_of_counts counts, sig, collected, rfl, once.own sig counted⟩

/-- Without a signature to spare, each one has to speak for an organization of its own. -/
theorem Endorsed.countsOnce (endorsed : policy.Endorsed X C proposal)
    (tight : proposal.signatures.length = policy.requiredCount)
    (all : policy.counted X C proposal = proposal.signatures) :
    policy.CountsOnce X C proposal := by
  classical
  obtain ⟨orgs, enough, each⟩ := endorsed
  let own := proposal.signatures.filter fun sig => sig.VerifiesOver X C proposal.transaction
  have covered : orgs ⊆ (own.map EndorsementSignature.orgName).toFinset := by
    intro org member
    obtain ⟨-, sig, collected, rfl, verifies⟩ := each org member
    have kept : sig ∈ own := mem_filter.mpr ⟨collected, decide_eq_true verifies⟩
    exact mem_toFinset.mpr (mem_map_of_mem kept)
  have names := (own.map EndorsementSignature.orgName).toFinset_card_le
  have fewer : own.length ≤ proposal.signatures.length := length_filter_le _ _
  have needed := (Finset.card_le_card covered).trans names
  rw [length_map] at needed names
  have part : own.Sublist proposal.signatures := filter_sublist
  have whole : own = proposal.signatures := part.eq_of_length (by omega)
  constructor
  · intro sig counted
    rw [all, ← whole] at counted
    exact of_decide_eq_true (mem_filter.mp counted).2
  · rw [all, ← whole, ← Multiset.coe_nodup, ← Multiset.toFinset_card_eq_card_iff_nodup]
    have reached := Finset.card_le_card covered
    simp only [Multiset.coe_card, length_map]
    change (own.map EndorsementSignature.orgName).toFinset.card = own.length
    omega

end EndorsementPolicy

/-- An approval means as many organizations as the policy requires if every counted signature is
over the proposal's transaction and no name is counted twice; and only then, if no signature is to
spare. -/
theorem endorsement_quorum_of_countsOnce (X : Externals) (C : Ed25519) (debug : List String → String)
    (engine : EndorsementEngine) (proposal : EndorsementProposal) (proposalId : String)
    (endorserCount : Nat)
    (approved : engine.evaluate X C debug proposal = .approved proposalId endorserCount) :
    (engine.policy.CountsOnce X C proposal → engine.policy.Endorsed X C proposal) ∧
      (proposal.signatures.length = engine.policy.requiredCount →
        (engine.policy.Endorsed X C proposal ↔ engine.policy.CountsOnce X C proposal)) := by
  obtain ⟨-, count, enough⟩ := EndorsementEngine.evaluate_eq_approved.mp approved
  rw [← count] at enough
  refine ⟨fun once => once.endorsed enough, fun tight => ⟨fun endorsed => ?_, fun once =>
    once.endorsed enough⟩⟩
  have all : engine.policy.counted X C proposal = proposal.signatures := by
    refine filter_sublist.eq_of_length (le_antisymm (length_filter_le _ _) ?_)
    exact tight ▸ enough
  exact endorsed.countsOnce tight all

/-- A signature is the key, the length of the message, and the message filled up with zeros. -/
def sealedBytes (key message : Bytes) : Bytes :=
  key ++ (UInt8.ofNat message.length :: (message ++ List.replicate (31 - message.length) 0))

def sealing : Ed25519 :=
  ⟨fun _ => true, fun key message signature =>
    decide (message.length < 32) && signature == sealedBytes key message⟩

lemma sealing_signsOne : sealing.SignsOne := by
  intro key message message' signature verified verified'
  simp only [sealing, Bool.and_eq_true, decide_eq_true_eq, beq_iff_eq] at verified verified'
  obtain ⟨short, rfl⟩ := verified
  obtain ⟨short', same⟩ := verified'
  obtain ⟨lengths, bytes⟩ := List.cons.inj (append_cancel_left same)
  have lengths := congrArg UInt8.toNat lengths
  simp only [UInt8.toNat_ofNat'] at lengths
  exact (append_inj bytes (by omega)).1

noncomputable def printingIds : Externals :=
  { Externals.plain 0 with transactionJson := fun tx => utf8 tx.id }

def namedTx (id : String) : Transaction := ⟨id, 0, .inventoryUpdate ⟨"sku", "node", 0, ""⟩, []⟩

def sealedBy (org : String) (byte : UInt8) (id : String) : EndorsementSignature :=
  ⟨⟨namedTx id, sealedBytes (List.replicate 32 byte) (utf8 id), List.replicate 32 byte, org⟩, org⟩

def twoOfTwo : EndorsementEngine := ⟨⟨"both", ["acme", "beta"], 2⟩⟩

def proposalFor (signatures : List EndorsementSignature) : EndorsementProposal :=
  signatures.foldl EndorsementProposal.addSignature (.new (namedTx "t") 0)

instance (X : Externals) (C : Ed25519) (tx : Transaction) (sig : EndorsementSignature) :
    Decidable (sig.VerifiesOver X C tx) :=
  inferInstanceAs (Decidable (_ = _))

/-- Both organizations sign what is proposed. -/
theorem endorsement_quorum_sample : twoOfTwo.policy.Endorsed printingIds sealing
    (proposalFor [sealedBy "acme" 1 "t", sealedBy "beta" 2 "t"]) :=
  (endorsement_quorum_of_countsOnce printingIds sealing (fun _ => "") twoOfTwo
    (proposalFor [sealedBy "acme" 1 "t", sealedBy "beta" 2 "t"]) "endorsement-t" 2
    (by decide +kernel)).1 ⟨by decide +kernel, by decide +kernel⟩

/-- One organization signs twice, or both sign another transaction, and the proposal is approved
with two endorsements. -/
theorem endorsement_quorum_missed :
    let twice := proposalFor [sealedBy "acme" 1 "t", sealedBy "acme" 1 "t"]
    let other := proposalFor [sealedBy "acme" 1 "u", sealedBy "beta" 2 "u"]
    sealing.SignsOne ∧
      (twoOfTwo.evaluate printingIds sealing (fun _ => "") twice = .approved "endorsement-t" 2 ∧
        ¬ twoOfTwo.policy.Endorsed printingIds sealing twice) ∧
      (twoOfTwo.evaluate printingIds sealing (fun _ => "") other = .approved "endorsement-t" 2 ∧
        ¬ twoOfTwo.policy.Endorsed printingIds sealing other) := by
  intro twice other
  have repeated : twoOfTwo.policy.counted printingIds sealing twice = twice.signatures := rfl
  have foreign : twoOfTwo.policy.counted printingIds sealing other = other.signatures := rfl
  refine ⟨sealing_signsOne, ⟨by decide +kernel, fun endorsed => ?_⟩, by decide +kernel,
    fun endorsed => ?_⟩
  · have once := (endorsed.countsOnce rfl repeated).distinct
    rw [repeated] at once
    exact absurd once (by decide)
  · have own := (endorsed.countsOnce rfl foreign).own
    rw [foreign] at own
    exact absurd (own _ mem_cons_self) (by decide +kernel)

end GlassChain
