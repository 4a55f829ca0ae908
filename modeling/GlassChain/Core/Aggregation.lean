import GlassChain.Core.Certificate

/-!
# Aggregation of votes

`aggregate_votes` folds verified votes into a bitmap and one signature; a voter whose bit is set
already is skipped. Whatever the votes name, the bits are the voters and the signature is worth one
signature of each voter. The certificate built from it is accepted exactly when all of them name
the block. Where signatures are unique, order and repetition of the votes leave no trace.
-/

namespace GlassChain

open Library List BftConsensusProvider

/-- Bits outside the bitmap are not set. -/
theorem bitmapContains_iff_mem {bitmap : Bytes} {i : Nat} :
    bitmapContains bitmap i = true ↔ i ∈ expandSigners bitmap := by
  by_cases inside : i < 8 * bitmap.length
  · exact bitmapContains_iff inside
  · have outside : bitmap.length ≤ i / 8 := by omega
    rw [bitmapContains, getD_eq_default _ _ outside, testMask_zero, expandSigners, mem_expand]
    simp [inside]

namespace BftConsensusProvider

variable {B : Multisig} {I : B.Ideal} {P : BftConsensusProvider B} {votes votes' : List BftVote}
  {named : Nat → String} {bitmap : Bytes} {σ : B.Signature} {b : Block}

lemma verifyVote_iff_keyAt (distinct : P.keys.Nodup) {v : BftVote} {i j : Nat}
    (verified : P.verifyVote v = .ok j) :
    P.verifyVote v = .ok i ↔ i < P.validators.length ∧ v.publicKey = P.keyAt i := by
  obtain ⟨inside, key⟩ := indexOf_eq_some (verifyVote_eq_ok.mp verified).2
  constructor
  · intro same
    obtain rfl : j = i := Except.ok.inj (verified.symm.trans same)
    exact ⟨inside, key.symm⟩
  · rintro ⟨inside', key'⟩
    rw [verified, keyAt_injective distinct inside inside' (key.trans key')]

/-- The result of `aggregate_votes` on verified votes, where voter `i` votes for `named i`. -/
structure Aggregated (I : B.Ideal) (P : BftConsensusProvider B) (named : Nat → String)
    (votes : List BftVote) (bitmap : Bytes) (σ : B.Signature) : Prop where
  verified : ∀ v ∈ votes, ∃ i, P.verifyVote v = .ok i
  names : ∀ v ∈ votes, ∀ i, P.verifyVote v = .ok i → v.blockHash = named i
  length : bitmap.length = bitmapLen P.validators.length
  inside : ∀ i ∈ expandSigners bitmap, i < P.validators.length
  voters : ∀ i, i ∈ expandSigners bitmap ↔ ∃ v ∈ votes, P.verifyVote v = .ok i
  built : I.built σ = (expandSigners bitmap : Multiset Nat).map
    fun i => (P.keyAt i, BftVote.voteMessage (named i))

lemma aggregateVotes_spec (I : B.Ideal) (verified : ∀ v ∈ votes, ∃ i, P.verifyVote v = .ok i)
    (names : ∀ v ∈ votes, ∀ i, P.verifyVote v = .ok i → v.blockHash = named i)
    (nonempty : votes ≠ []) :
    ∃ bitmap σ, P.aggregateVotes votes = .ok (bitmap, B.signatureBytes σ) ∧
      Aggregated I P named votes bitmap σ := by
  obtain ⟨bitmap, signatures, run, after, bits⟩ :=
    collectSignatures_gathered (I := I) verified names gathered_nil
  have voters : ∀ i, i ∈ expandSigners bitmap ↔ ∃ v ∈ votes, P.verifyVote v = .ok i := by
    simpa [expandSigners, expand_replicate_zero] using bits
  obtain ⟨v, hv⟩ := exists_mem_of_ne_nil votes nonempty
  obtain ⟨i, hi⟩ := verified v hv
  obtain ⟨σ, aggregated, built⟩ := aggregateVotes_of_gathered run after ((voters i).mpr ⟨v, hv, hi⟩)
  exact ⟨bitmap, σ, aggregated, verified, names, after.length, after.inside, voters, built⟩

/-- The certificate over an aggregate of a quorum is accepted exactly for the hash all votes
name. -/
theorem Aggregated.verifies_iff (h : Aggregated I P named votes bitmap σ)
    (fits : P.validators.length < 2 ^ 63) (enough : P.quorum ≤ (expandSigners bitmap).length)
    (b : Block) :
    P.verifyCertificate ⟨b.index, b.hash, bitmap, B.signatureBytes σ, .bls12381⟩ b = .ok () ↔
      ∀ v ∈ votes, v.blockHash = b.hash := by
  rw [verifyCertificate_iff I]
  constructor
  · intro attested v hv
    obtain ⟨-, τ, parse, built⟩ := attested.signed
    obtain rfl : σ = τ := Except.ok.inj ((I.signature_round σ).symm.trans parse)
    obtain ⟨i, hi⟩ := h.verified v hv
    -- the pair this voter signed is one of those the certificate asks for
    have signed : (P.keyAt i, BftVote.voteMessage (named i)) ∈ I.built σ := by
      rw [h.built]
      exact Multiset.mem_map_of_mem _ ((h.voters i).mpr ⟨v, hv, hi⟩)
    rw [built] at signed
    obtain ⟨j, -, pair⟩ := Multiset.mem_map.mp signed
    have message : b.hash = named i := BftVote.voteMessage_injective (congrArg Prod.snd pair)
    rw [h.names v hv i hi, message]
  · intro same
    refine attested_of_built I fits b h.length h.inside enough (h.built.trans ?_)
    refine Multiset.map_congr rfl fun i hi => ?_
    obtain ⟨v, hv, position⟩ := (h.voters i).mp hi
    rw [← h.names v hv i position, same v hv]

/-- Verified votes for one block from a quorum of keys, in any order and number. -/
structure Electing (P : BftConsensusProvider B) (b : Block) (votes : List BftVote) : Prop where
  verified : ∀ v ∈ votes, ∃ i, P.verifyVote v = .ok i
  same : ∀ v ∈ votes, v.blockHash = b.hash
  enough : P.quorum ≤ (votes.map (·.publicKey)).toFinset.card

lemma Electing.aggregated (I : B.Ideal) (h : Electing P b votes) :
    ∃ bitmap σ, P.aggregateVotes votes = .ok (bitmap, B.signatureBytes σ) ∧
      Aggregated I P (fun _ => b.hash) votes bitmap σ := by
  refine aggregateVotes_spec I h.verified (fun v hv _ _ => h.same v hv) ?_
  rintro rfl
  exact absurd h.enough P.quorum_pos.not_ge

lemma Aggregated.bitmap_eq {bitmap' : Bytes} {σ' : B.Signature} (distinct : P.keys.Nodup)
    (h : Aggregated I P named votes bitmap σ) (h' : Aggregated I P named votes' bitmap' σ')
    (keys : ∀ key, key ∈ votes.map (·.publicKey) ↔ key ∈ votes'.map (·.publicKey)) :
    bitmap = bitmap' := by
  have shared : ∀ {l l' : List BftVote}, (∀ v ∈ l, ∃ i, P.verifyVote v = .ok i) →
      (∀ v ∈ l', ∃ i, P.verifyVote v = .ok i) →
      (∀ key, key ∈ l.map (·.publicKey) → key ∈ l'.map (·.publicKey)) →
      ∀ i, (∃ v ∈ l, P.verifyVote v = .ok i) → ∃ v ∈ l', P.verifyVote v = .ok i := by
    rintro l l' verified verified' keys i ⟨v, hv, hi⟩
    obtain ⟨inside, key⟩ := (verifyVote_iff_keyAt distinct hi).mp hi
    obtain ⟨w, hw, same⟩ := mem_map.mp (keys _ (mem_map_of_mem hv))
    obtain ⟨j, hj⟩ := verified' w hw
    exact ⟨w, hw, (verifyVote_iff_keyAt distinct hj).mpr ⟨inside, same.trans key⟩⟩
  refine eq_of_mem_expand_iff (h.length.trans h'.length.symm) fun i => ?_
  change i ∈ expandSigners bitmap ↔ i ∈ expandSigners bitmap'
  rw [h.voters, h'.voters]
  exact ⟨shared h.verified h'.verified (fun key => (keys key).mp) i,
    shared h'.verified h.verified (fun key => (keys key).mpr) i⟩

/-- Aggregation succeeds on the votes of a quorum for a block, its bits are the voters and the
certificate is accepted; and it depends on the set of voters alone. The domain is that of a
vector's length. -/
theorem aggregation_complete_canonical (I : B.Ideal) (unique : Function.Injective I.built)
    (fits : P.validators.length < 2 ^ 63) (distinct : P.keys.Nodup) (b : Block) :
    (∀ votes, Electing P b votes → ∃ bitmap aggregate,
      P.aggregateVotes votes = .ok (bitmap, aggregate) ∧
      (∀ i, bitmapContains bitmap i = true ↔
        i < P.validators.length ∧ ∃ v ∈ votes, v.publicKey = P.keyAt i) ∧
      P.verifyCertificate ⟨b.index, b.hash, bitmap, aggregate, .bls12381⟩ b = .ok ()) ∧
    ∀ votes votes', Electing P b votes → Electing P b votes' →
      (∀ key, key ∈ votes.map (·.publicKey) ↔ key ∈ votes'.map (·.publicKey)) →
      P.aggregateVotes votes = P.aggregateVotes votes' := by
  constructor
  · intro votes electing
    obtain ⟨bitmap, σ, run, h⟩ := electing.aggregated I
    have enough := electing.enough.trans (card_voters_le h.verified h.voters)
    refine ⟨bitmap, _, run, fun i => ?_, (h.verifies_iff fits enough b).mpr electing.same⟩
    rw [bitmapContains_iff_mem, h.voters]
    constructor
    · rintro ⟨v, hv, hi⟩
      obtain ⟨inside, key⟩ := (verifyVote_iff_keyAt distinct hi).mp hi
      exact ⟨inside, v, hv, key⟩
    · rintro ⟨inside, v, hv, key⟩
      obtain ⟨j, hj⟩ := h.verified v hv
      exact ⟨v, hv, (verifyVote_iff_keyAt distinct hj).mpr ⟨inside, key⟩⟩
  · intro votes votes' electing electing' keys
    obtain ⟨bitmap, σ, run, h⟩ := electing.aggregated I
    obtain ⟨bitmap', σ', run', h'⟩ := electing'.aggregated I
    obtain rfl := h.bitmap_eq distinct h' keys
    obtain rfl : σ = σ' := unique (h.built.trans h'.built.symm)
    rw [run, run']

end BftConsensusProvider

lemma length_canonicalKey (k : UInt8) : (List.replicate 48 k).length = 48 := length_replicate

noncomputable def canonicalKey (k : UInt8) : (Multisig.canonical 48).PrivateKey :=
  (⟨List.replicate 48 k, length_canonicalKey k⟩ : { key : List UInt8 // key.length = 48 })

noncomputable def canonicalProvider (k : UInt8) : BftConsensusProvider (Multisig.canonical 48) where
  validators := [ValidatorInfo.ofPrivateKey (Multisig.canonical 48) "a" (canonicalKey 1),
    ValidatorInfo.ofPrivateKey (Multisig.canonical 48) "b" (canonicalKey 2)]
  signingKey := canonicalKey k
  registered := by
    intro v hv
    simp only [mem_cons, not_mem_nil, or_false] at hv
    obtain rfl | rfl := hv
    · exact ValidatorInfo.register_ofPrivateKey (Multisig.canonicalIdeal 48) _ (length_canonicalKey 1)
    · exact ValidatorInfo.register_ofPrivateKey (Multisig.canonicalIdeal 48) _ (length_canonicalKey 2)

lemma canonicalProvider_keys (k : UInt8) :
    (canonicalProvider k).keys = [List.replicate 48 1, List.replicate 48 2] := rfl

lemma canonicalProvider_indexOf (k : UInt8) :
    (canonicalProvider k).indexOf (canonicalProvider 1).publicKey = some 0 ∧
      (canonicalProvider k).indexOf (canonicalProvider 2).publicKey = some 1 := by
  have keys : ∀ key, (canonicalProvider k).indexOf key =
      (canonicalProvider k).keys.findIdx? (· == key) := by
    intro key
    rw [BftConsensusProvider.keys, findIdx?_map]
    rfl
  have encoded : ∀ k, (canonicalProvider k).publicKey = List.replicate 48 k := fun _ => rfl
  rw [keys, keys, canonicalProvider_keys, encoded, encoded]
  decide

noncomputable def canonicalVote (k : UInt8) (b : Block) : BftVote :=
  (canonicalProvider k).signVote "chain" b.index 0 .precommit b.hash

lemma canonicalVote_electing (b : Block) {votes : List BftVote}
    (first : canonicalVote 1 b ∈ votes) (second : canonicalVote 2 b ∈ votes)
    (only : ∀ v ∈ votes, v = canonicalVote 1 b ∨ v = canonicalVote 2 b) :
    BftConsensusProvider.Electing (canonicalProvider 1) b votes := by
  obtain ⟨index, index'⟩ := canonicalProvider_indexOf 1
  refine ⟨fun v hv => ?_, fun v hv => ?_, ?_⟩
  · rcases only v hv with rfl | rfl
    · exact ⟨0, verifyVote_signVote (Multisig.canonicalIdeal 48) index ..⟩
    · exact ⟨1, verifyVote_signVote (Multisig.canonicalIdeal 48) index' ..⟩
  · rcases only v hv with rfl | rfl <;> rfl
  · have pair : {(canonicalVote 1 b).publicKey, (canonicalVote 2 b).publicKey} ⊆
        (votes.map (·.publicKey)).toFinset := by
      intro key hkey
      rw [mem_toFinset]
      rcases Finset.mem_insert.mp hkey with rfl | hkey
      · exact mem_map_of_mem first
      · obtain rfl := Finset.mem_singleton.mp hkey
        exact mem_map_of_mem second
    refine le_trans ?_ (Finset.card_le_card pair)
    have differ : (canonicalVote 1 b).publicKey ≠ (canonicalVote 2 b).publicKey := by
      show List.replicate 48 (1 : UInt8) ≠ List.replicate 48 2
      decide
    rw [Finset.card_pair differ]
    decide

theorem aggregation_complete_canonical_pair :
    let P := canonicalProvider 1
    let v := canonicalVote 1 twinBlock
    let w := canonicalVote 2 twinBlock
    (∃ bitmap aggregate, P.aggregateVotes [v, w] = .ok (bitmap, aggregate) ∧
      P.verifyCertificate ⟨0, twinBlock.hash, bitmap, aggregate, .bls12381⟩ twinBlock = .ok ()) ∧
    P.aggregateVotes [v, w] = P.aggregateVotes [w, v, w, w] := by
  intro P v w
  have distinct : P.keys.Nodup := by
    rw [canonicalProvider_keys]
    decide
  have electing : BftConsensusProvider.Electing P twinBlock [v, w] :=
    canonicalVote_electing twinBlock (by simp [v]) (by simp [w]) (by simp [v, w])
  have repeated : BftConsensusProvider.Electing P twinBlock [w, v, w, w] :=
    canonicalVote_electing twinBlock (by simp [v]) (by simp [w]) (by simp [v, w])
  obtain ⟨complete, canonical⟩ := aggregation_complete_canonical
    (Multisig.canonicalIdeal 48) (fun _ _ same => same) (show P.validators.length < 2 ^ 63 by decide)
    distinct twinBlock
  obtain ⟨bitmap, aggregate, run, -, accepted⟩ := complete [v, w] electing
  refine ⟨⟨bitmap, aggregate, run, accepted⟩, canonical _ _ electing repeated fun key => ?_⟩
  simp only [map_cons, map_nil, mem_cons, not_mem_nil]
  tauto

end GlassChain
