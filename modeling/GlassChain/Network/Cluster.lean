import GlassChain.Network.Equivocation

/-!
# A cluster of validators

The honest members of one validator set, each a `Validator`, and a network that may lose, repeat,
reorder and forge messages as far as ideal signatures allow: what a signature holds of a member's
key was signed by that member, unless the member is Byzantine. Nothing is assumed of the Byzantine
members; they act only through the messages that arrive.
-/

namespace GlassChain

open Library BftConsensusProvider List Function

variable {B : Multisig} {X : Externals}

namespace Validator

/-- Every provider of the node signs with one key, and every driver's block stores its own hash. -/
structure Keyed (X : Externals) (key : Bytes) (v : Validator B) : Prop where
  consensus : ∀ P, v.state.consensus = some P → P.publicKey = key
  cache : ∀ hash P, v.state.bftValidatorCache = some (hash, P) → P.publicKey = key
  drivers : ∀ id d, v.drivers id = some d →
    d.block.isValid X = true ∧ ∀ P, d.provider = some P → P.publicKey = key

namespace Keyed

variable {key : Bytes} {v v' : Validator B}

/-- The derivation hands the attached key on. -/
theorem derived (keyed : v.Keyed X key) :
    (∀ P, (deriveValidatorProvider X v.state).2 = some P → P.publicKey = key) ∧
      ∀ hash P, (deriveValidatorProvider X v.state).1.bftValidatorCache = some (hash, P) →
        P.publicKey = key := by
  by_cases none : v.state.consensus = none
  · have run : deriveValidatorProvider X v.state = (v.state, .none) := by
      unfold deriveValidatorProvider
      rw [none]
    rw [run]
    exact ⟨fun _ h => (by cases h), keyed.cache⟩
  · obtain ⟨attached, consensus⟩ := Option.ne_none_iff_exists'.mp none
    have attachedKey := keyed.consensus attached consensus
    obtain ⟨P, hit, run⟩ | ⟨-, run⟩ | ⟨-, P, new, run⟩ | ⟨-, e, -, run⟩ :=
      deriveValidatorProvider_cases (X := X) consensus
    · rw [run]
      refine ⟨fun Q hQ => ?_, keyed.cache⟩
      cases hQ
      exact keyed.cache _ _ hit
    · rw [run]
      refine ⟨fun Q hQ => ?_, keyed.cache⟩
      cases hQ
      exact attachedKey
    · have newKey : P.publicKey = key := by
        rw [← attachedKey, publicKey, publicKey,
          (new_eq_ok.mp new).2]
      rw [run]
      constructor
      · intro Q hQ
        cases hQ
        exact newKey
      · intro hash Q hQ
        cases hQ
        exact newKey
    · rw [run]
      exact ⟨fun _ h => (by cases h), keyed.cache⟩

lemma progress (keyed : v.Keyed X key) {input : Input B} {d d' : Driver B} {id : Nat}
    (driver : v.drivers id = some d) (step : d.Progress X v.state input d') :
    d'.block.isValid X = true ∧ ∀ P, d'.provider = some P → P.publicKey = key := by
  obtain ⟨valid, held⟩ := keyed.drivers id d driver
  cases step with
  | idle inbox => exact ⟨valid, held⟩
  | derived found _ =>
    refine ⟨valid, fun P hP => ?_⟩
    cases hP
    exact keyed.derived.1 _ found
  | registered stage =>
    refine ⟨valid, fun P hP => held P ?_⟩
    rw [Driver.provider, stage]
    exact hP
  | advanced _ block _ provider =>
    rw [block, provider]
    exact ⟨valid, held⟩
  | retried _ block _ stage =>
    rw [block, Driver.provider, stage]
    exact ⟨valid, fun _ none => by cases none⟩

lemma handle (keyed : v.Keyed X key) (input : Input B) : (v.handle X input).Keyed X key := by
  have lineage := handle_lineage X v input
  refine ⟨?_, ?_, fun id d' hd' => ?_⟩
  · rw [lineage.consensus]
    exact keyed.consensus
  · obtain same | filled := lineage.cache
    · rw [same]
      exact keyed.cache
    · rw [filled]
      exact keyed.derived.2
  · obtain ⟨block, rfl⟩ | ⟨d, hd, step⟩ := handle_progress X v input id d' hd'
    · exact ⟨Block.isValid_iff.mpr rfl, fun _ h => by cases h⟩
    · exact keyed.progress hd step

lemma holds (keyed : v.Keyed X key) {P : BftConsensusProvider B} (held : v.Holds X P) :
    P.publicKey = key := by
  obtain derived | ⟨id, d, hd, provider⟩ := held
  · exact keyed.derived.1 P derived
  · exact (keyed.drivers id d hd).2 P provider

end Keyed

/-- A vote of a step was there before, or is signed with a provider the node holds. -/
theorem votes_of_effect {v v' : Validator B} {input : Input B} (effect : v.Effect X v' input) :
    ∀ ballot ∈ v'.votes, ballot ∈ v.votes ∨
      ∃ height round phase hash, v.Votes X height round phase hash ballot := by
  intro ballot member
  have appended {events : List Event} (history : v'.history = v.history ++ events) :
      ballot ∈ v.votes ∨ .signed ballot ∈ events := by
    rw [votes_append history, mem_append, mem_filterMap] at member
    refine member.imp id ?_
    rintro ⟨e, he, entry⟩
    cases e with
    | signed vote =>
      cases entry
      exact he
    | _ => cases entry
  cases effect with
  | quiet events _ _ silent history =>
    refine .inl ((appended history).resolve_right fun new => ?_)
    exact absurd (silent _ new) (by simp [Event.silent])
  | prevoted _ _ _ _ vote history =>
    refine (appended history).imp id fun new => ?_
    cases mem_singleton.mp new
    exact ⟨_, _, _, _, vote⟩
  | abstained _ _ history => exact .inl (by rwa [votes, history] at member)
  | precommitted _ _ _ _ _ vote history =>
    refine (appended history).imp id fun new => ?_
    simp only [mem_cons, reduceCtorEq, Event.signed.injEq, not_mem_nil, or_false, false_or] at new
    subst new
    exact ⟨_, _, _, _, vote⟩
  | registered _ _ _ _ history => exact .inl (by rwa [votes, history] at member)
  | seeded events _ _ _ _ _ vote silent history =>
    refine (appended history).imp id fun new => ?_
    obtain old | new := mem_append.mp new
    · exact absurd (silent _ old) (by simp [Event.silent])
    · cases mem_singleton.mp new
      exact ⟨_, _, _, _, vote⟩

end Validator

def BftVote.messages (vote : BftVote) : List Bytes :=
  [BftVote.voteMessage vote.blockHash,
    BftVote.contextMessage vote.chainId vote.height vote.round vote.phase vote.blockHash]

/-- The members of a validator set by position; the entries of Byzantine members mean nothing. -/
abbrev Cluster (B : Multisig) := Nat → Validator B

namespace Cluster

section

variable (I : B.Ideal) (X : Externals) (P : BftConsensusProvider B) (byzantine : Finset Nat)

def Honest (i : Nat) : Prop := i < P.validators.length ∧ i ∉ byzantine

/-- An honest member signed the message with this key. -/
def Signed (N : Cluster B) (key message : Bytes) : Prop :=
  ∃ i, Honest P byzantine i ∧ ∃ vote ∈ (N i).votes, vote.publicKey = key ∧ message ∈ vote.messages

/-- A signature that can be on the network. Besides votes an honest member has signed its proof of
possession. -/
def Derivable (N : Cluster B) (σ : B.Signature) : Prop :=
  ∀ key message, (key, message) ∈ I.built σ → (∃ i < P.validators.length, P.keyAt i = key) →
    (∃ i ∈ byzantine, P.keyAt i = key) ∨ (∃ v ∈ P.validators, message = v.popMessage) ∨
      N.Signed P byzantine key message

/-- Encoded signatures that can be on the network. -/
def Transmittable (N : Cluster B) (bytes : Bytes) : Prop :=
  ∀ σ, B.signatureOfBytes bytes = .ok σ → N.Derivable I P byzantine σ

/-- The signatures of a delivered message can be on the network. -/
def Authentic (N : Cluster B) : Input B → Prop
  | .precommit _ _ c => N.Transmittable I P byzantine c.aggregateSignature
  | .vote vote => N.Transmittable I P byzantine vote.signature ∧
      N.Transmittable I P byzantine vote.contextSignature
  | _ => True

def Step (N : Cluster B) (action : Nat × Input B) (N' : Cluster B) : Prop :=
  Honest P byzantine action.1 ∧ N.Authentic I P byzantine action.2 ∧
    N' = Function.update N action.1 ((N action.1).handle X action.2)

def Start (N : Cluster B) : Prop :=
  ∀ i, Honest P byzantine i → (N i).Fresh ∧ (N i).Keyed X (P.keyAt i)

/-- A block whose certificate can be on the network and is accepted under the set. -/
def Certified (N : Cluster B) (b : Block) : Prop :=
  ∃ c, b.certificate = some c ∧ N.Transmittable I P byzantine c.aggregateSignature ∧
    P.verifyCertificate c b = .ok ()

end

variable {I : B.Ideal} {P : BftConsensusProvider B} {byzantine : Finset Nat} {N N₀ : Cluster B}

/-- What every honest member's own steps preserve holds of every honest member. -/
theorem member_invariant {ok : Cluster B → Nat × Input B → Prop} {J : Nat → Validator B → Prop}
    (keep : ∀ N i input, Honest P byzantine i → J i (N i) → ok N (i, input) →
      J i ((N i).handle X input))
    (run : Reaches (Step I X P byzantine) ok N₀ N)
    (start : ∀ i, Honest P byzantine i → J i (N₀ i)) : ∀ i, Honest P byzantine i → J i (N i) := by
  refine run.invariant (I := fun N => ∀ i, Honest P byzantine i → J i (N i)) ?_ start
  rintro N ⟨j, input⟩ N' members permitted ⟨honest, -, rfl⟩ i hi
  by_cases same : i = j
  · subst same
    rw [update_self]
    exact keep N i input hi (members i hi) permitted
  · rw [update_of_ne same]
    exact members i hi

lemma publicKey_of_votes {ok : Cluster B → Nat × Input B → Prop} (start : Start X P byzantine N₀)
    (run : Reaches (Step I X P byzantine) ok N₀ N) {i : Nat} (honest : Honest P byzantine i) :
    (N i).Keyed X (P.keyAt i) ∧ ∀ vote ∈ (N i).votes, vote.publicKey = P.keyAt i := by
  refine member_invariant (X := X) (I := I) (J := fun i v => v.Keyed X (P.keyAt i) ∧
    ∀ vote ∈ v.votes, vote.publicKey = P.keyAt i) ?_ run ?_ i honest
  · rintro N i input - ⟨keyed, signed⟩ -
    refine ⟨keyed.handle input, fun vote member => ?_⟩
    obtain old | ⟨height, round, phase, hash, provider, chainId, held, rfl⟩ :=
      Validator.votes_of_effect (Validator.handle_effect X (N i) input) vote member
    · exact signed vote old
    · exact keyed.holds held
  · intro i hi
    obtain ⟨fresh, keyed⟩ := start i hi
    refine ⟨keyed, fun vote member => ?_⟩
    simp [Validator.votes, fresh.history] at member

def QuorumOf (P : BftConsensusProvider B) (p : Nat → Prop) : Prop :=
  ∃ S : Finset Nat, S ⊆ Finset.range P.validators.length ∧ P.quorum ≤ S.card ∧ ∀ i ∈ S, p i

/-- A member's key voted for a hash at some height, as far as honest members go. -/
def VotedFor (P : BftConsensusProvider B) (byzantine : Finset Nat) (N : Cluster B) (hash : String)
    (i : Nat) : Prop :=
  (∃ j ∈ byzantine, P.keyAt j = P.keyAt i) ∨
    ∃ j, Honest P byzantine j ∧ ∃ vote ∈ (N j).votes, vote.publicKey = P.keyAt i ∧
      vote.blockHash = hash

/-- Behind an accepted certificate stands a quorum of positions whose keys voted for the hash. -/
theorem Certified.voters {b : Block} (certified : N.Certified I P byzantine b) :
    QuorumOf P (N.VotedFor P byzantine b.hash) := by
  obtain ⟨c, -, transmittable, accepted⟩ := certified
  have attested := (verifyCertificate_iff I).mp accepted
  obtain ⟨σ, parse, built⟩ := attested.signed.2
  refine ⟨(expandSigners c.signersBitmap).toFinset, fun i hi => ?_, ?_, fun i hi => ?_⟩
  · exact Finset.mem_range.mpr (attested.inside i (mem_toFinset.mp hi))
  · have nodup : (expandSigners c.signersBitmap).Nodup := expand_nodup _
    rw [toFinset_card_of_nodup nodup]
    exact attested.quorum
  · rw [mem_toFinset] at hi
    have member : (P.keyAt i, BftVote.voteMessage b.hash) ∈ I.built σ := by
      rw [built, Multiset.mem_map]
      exact ⟨i, hi, rfl⟩
    obtain corrupt | ⟨v, -, pop⟩ | ⟨j, honest, vote, signed, key, message⟩ :=
      transmittable σ parse _ _ member ⟨i, attested.inside i hi, rfl⟩
    · exact .inl corrupt
    · exact absurd pop (BftVote.voteMessage_ne_popMessage _ _)
    · refine .inr ⟨j, honest, vote, signed, key, ?_⟩
      -- the aggregate signs the hash message, so it was the vote's hash signature
      simp only [BftVote.messages, mem_cons, not_mem_nil, or_false] at message
      cases message with
      | inl same => exact (BftVote.voteMessage_injective same).symm
      | inr context => exact absurd context (BftVote.voteMessage_ne_contextMessage _ _ _ _ _ _)

/-- Votes for a hash can be aggregated by anyone. -/
theorem certified_of_built {c : QuorumCertificate} {b : Block} {σ : B.Signature}
    (attested : BftConsensusProvider.Attested I P c b)
    (parse : B.signatureOfBytes c.aggregateSignature = .ok σ) {signers : Multiset Nat}
    (built : I.built σ = signers.map fun i => (P.keyAt i, BftVote.voteMessage b.hash))
    (voted : ∀ i ∈ signers, N.VotedFor P byzantine b.hash i) :
    N.Certified I P byzantine { b with certificate := some c } := by
  refine ⟨c, rfl, ?_, (verifyCertificate_iff I).mpr (attested.of_same rfl rfl)⟩
  intro τ parse' key message member _
  obtain rfl : σ = τ := Except.ok.inj (parse.symm.trans parse')
  rw [built, Multiset.mem_map] at member
  obtain ⟨i, hi, entry⟩ := member
  cases entry
  obtain corrupt | ⟨j, honest, vote, signed, key, name⟩ := voted i hi
  · exact .inl corrupt
  · refine .inr (.inr ⟨j, honest, vote, signed, key, ?_⟩)
    simp [BftVote.messages, name]

lemma certified_of_attested {c : QuorumCertificate} {b : Block}
    (attested : BftConsensusProvider.Attested I P c b)
    (voted : ∀ i ∈ expandSigners c.signersBitmap, N.VotedFor P byzantine b.hash i) :
    N.Certified I P byzantine { b with certificate := some c } := by
  obtain ⟨-, σ, parse, built⟩ := attested.signed
  exact certified_of_built attested parse built voted

lemma exists_certified (fits : P.validators.length < 2 ^ 63) {b : Block}
    (quorum : QuorumOf P (N.VotedFor P byzantine b.hash)) :
    ∃ c, N.Certified I P byzantine { b with certificate := some c } := by
  obtain ⟨S, inside, enough, voted⟩ := quorum
  obtain ⟨c, attested, σ, parse, built⟩ := exists_attested I fits b
    (fun i hi => Finset.mem_range.mp (inside hi)) enough
  exact ⟨c, certified_of_built attested parse built voted⟩

/-- A member's vote can be delivered once it is signed. -/
theorem authentic_vote {j : Nat} (honest : Honest P byzantine j) {Q : BftConsensusProvider B}
    {chainId hash : String} {height round : Nat} {phase : VotePhase}
    (signed : Q.signVote chainId height round phase hash ∈ (N j).votes) :
    N.Authentic I P byzantine (.vote (Q.signVote chainId height round phase hash)) := by
  have own (message : Bytes)
      (vote : message ∈ (Q.signVote chainId height round phase hash).messages) :
      N.Transmittable I P byzantine (B.signatureBytes (B.sign Q.signingKey message)) := by
    intro σ parse key m member _
    obtain rfl := Except.ok.inj ((I.signature_round _).symm.trans parse)
    rw [I.built_sign, Multiset.mem_singleton] at member
    cases member
    exact .inr (.inr ⟨j, honest, _, signed, rfl, vote⟩)
  refine ⟨own _ ?_, own _ ?_⟩
  · simp [BftVote.messages, signVote, BftVote.sign]
  · simp [BftVote.messages, signVote, BftVote.sign]

lemma reaches_run {i : Nat} (honest : Honest P byzantine i) {inputs : List (Input B)}
    (free : ∀ input ∈ inputs, ∀ N : Cluster B, N.Authentic I P byzantine input) (N : Cluster B) :
    Reaches (Step I X P byzantine) anyStep N
      (Function.update N i (inputs.foldl (Validator.handle X) (N i))) := by
  induction inputs generalizing N with
  | nil =>
    rw [foldl_nil, update_eq_self]
    exact .refl N
  | cons input rest ih =>
    have first : Reaches (Step I X P byzantine) anyStep N
        (Function.update N i ((N i).handle X input)) :=
      (Reaches.refl N).tail (i, input) trivial ⟨honest, free input (by simp) N, rfl⟩
    have later := ih (fun next member => free next (by simp [member]))
      (Function.update N i ((N i).handle X input))
    rw [update_self, update_idem] at later
    exact first.trans later

end Cluster

end GlassChain
