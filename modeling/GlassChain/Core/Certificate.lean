import GlassChain.Core.Bft

/-!
# What a quorum certificate attests

Under ideal signatures `verify_certificate` accepts exactly the certificates whose aggregate was
built from one signature over the block's vote message for every set bit (`verifyCertificate_iff`).
Bits count validators, not keys: `new` accepts a list in which one key stands at several indices,
and then fewer keys than a quorum can sign for a quorum of bits.
-/

namespace GlassChain

open Library List BftConsensusProvider BftVote Multisig

/-- A `Vec` of validators is far below the size at which the quorum product saturates. -/
theorem quorumThreshold_eq {n : Nat} (fits : n < 2 ^ 63) : quorumThreshold n = 2 * n / 3 + 1 := by
  unfold quorumThreshold usizeMax
  omega

lemma bitmapLen_covers (n : Nat) : n ≤ 8 * bitmapLen n := by
  unfold bitmapLen
  split <;> omega

lemma bitmapLen_fits {n : Nat} (fits : n < 2 ^ 63) : bitmapLen n ≤ usizeMax / 8 := by
  unfold bitmapLen usizeMax
  split <;> omega

variable {i : Nat}

lemma bitmapContains_iff {bitmap : Bytes} (inside : i < 8 * bitmap.length) :
    bitmapContains bitmap i = true ↔ i ∈ expandSigners bitmap := by
  rw [expandSigners, mem_expand, bitmapContains]
  simp [inside]

namespace BftConsensusProvider

variable {B : Multisig} {P : BftConsensusProvider B} {c : QuorumCertificate} {b : Block}

def keyAt (P : BftConsensusProvider B) (i : Nat) : Bytes :=
  (P.validators[i]?.map (·.publicKey)).getD []

def keys (P : BftConsensusProvider B) : List Bytes := P.validators.map (·.publicKey)

lemma keyAt_of_getElem? {v : ValidatorInfo} (h : P.validators[i]? = some v) :
    P.keyAt i = v.publicKey := by
  simp [keyAt, h]

/-- The keys `verify_certificate` sums are those of the indices in the bitmap. -/
theorem signerKeys_eq {signers : List Nat} (inside : ∀ i ∈ signers, i < P.validators.length) :
    (signers.filterMap (P.validators[·]?)).map (·.publicKey) = signers.map P.keyAt := by
  induction signers with
  | nil => rfl
  | cons i rest ih =>
    obtain ⟨v, hv⟩ : ∃ v, P.validators[i]? = some v := ⟨_, getElem?_eq_getElem (inside i (by simp))⟩
    simp [hv, keyAt_of_getElem? hv, ih fun j hj => inside j (by simp [hj])]

lemma keyAt_parses (inside : i < P.validators.length) :
    ∃ key, B.keyOfBytes (P.keyAt i) = .ok key := by
  have hv := getElem?_eq_getElem inside
  obtain ⟨-, key, hkey, -⟩ := ValidatorInfo.register_iff.mp (P.registered _ (mem_of_getElem? hv))
  exact ⟨key, by rwa [keyAt_of_getElem? hv]⟩

lemma keyAt_private (I : B.Ideal) (inside : i < P.validators.length) :
    ∃ sk, B.encodedKey sk = P.keyAt i := by
  obtain ⟨key, hkey⟩ := keyAt_parses inside
  obtain ⟨sk, hsk⟩ := I.private_of_key key
  exact ⟨sk, by rw [encodedKey, hsk, I.key_canonical hkey]⟩

lemma keyAt_injective (distinct : P.keys.Nodup) {j : Nat} (hi : i < P.validators.length)
    (hj : j < P.validators.length) (same : P.keyAt i = P.keyAt j) : i = j := by
  rw [keyAt_of_getElem? (getElem?_eq_getElem hi),
    keyAt_of_getElem? (getElem?_eq_getElem hj)] at same
  have hi' : i < P.keys.length := by simpa [keys] using hi
  have hj' : j < P.keys.length := by simpa [keys] using hj
  exact (Nodup.getElem_inj_iff distinct).mp (show P.keys[i] = P.keys[j] by simpa [keys] using same)

/-- The certificate is well formed, and its aggregate was built from one signature over the block's
vote message for every bit of a bitmap that names a quorum. -/
structure Attested (I : B.Ideal) (P : BftConsensusProvider B) (c : QuorumCertificate)
    (b : Block) : Prop where
  index : c.blockIndex = b.index
  hash : c.blockHash = b.hash
  nonempty : c.signersBitmap ≠ []
  algorithm : c.algorithm = .bls12381
  size : c.signersBitmap.length ≤ usizeMax / 8
  quorum : P.quorum ≤ (expandSigners c.signersBitmap).length
  inside : ∀ i ∈ expandSigners c.signersBitmap, i < P.validators.length
  signed : c.aggregateSignature ≠ [] ∧ ∃ σ, B.signatureOfBytes c.aggregateSignature = .ok σ ∧
    I.built σ = (expandSigners c.signersBitmap : Multiset Nat).map
      fun i => (P.keyAt i, BftVote.voteMessage b.hash)

/-- A certificate says nothing about the rest of the block. -/
theorem Attested.of_same {I : B.Ideal} {b' : Block} (h : Attested I P c b)
    (index : b'.index = b.index) (hash : b'.hash = b.hash) : Attested I P c b' :=
  ⟨h.index.trans index.symm, h.hash.trans hash.symm, h.nonempty, h.algorithm, h.size, h.quorum,
    h.inside, by rw [hash]; exact h.signed⟩

lemma verifySameMessageMultisig_iff (I : B.Ideal) {σ : B.Signature} {signers : List Nat}
    {m : Bytes} (inside : ∀ i ∈ signers, i < P.validators.length) :
    verifySameMessageMultisig B σ (signers.map P.keyAt) m = true ↔
      I.built σ = (signers : Multiset Nat).map fun i => (P.keyAt i, m) := by
  have parse : ∀ key ∈ signers.map P.keyAt, ∃ pk, B.keyOfBytes key = .ok pk := by
    intro key hkey
    obtain ⟨i, hi, rfl⟩ := mem_map.mp hkey
    exact keyAt_parses (inside i hi)
  obtain ⟨point, sum⟩ := I.sumKeys_isSome parse
  simp only [verifySameMessageMultisig, sum, I.pairing_iff, I.keys_sumKeys sum]
  rw [← Multiset.map_coe, Multiset.map_map]
  rfl

lemma verifyCertificate_iff (I : B.Ideal) :
    P.verifyCertificate c b = .ok () ↔ Attested I P c b := by
  simp only [verifyCertificate, bind_eq_ok, require_eq_ok, parsed_eq_ok, Unique.exists_iff,
    PUnit.default_eq_unit, Bool.not_eq_true', QuorumCertificate.validate_iff,
    QuorumCertificate.isDegenerate, isEmpty_eq_false_iff, List.isEmpty_iff, bitmapTooLarge,
    decide_eq_false_iff_not, meetsQuorum, signersInRange, all_eq_true, decide_eq_true_eq, Nat.not_lt]
  constructor
  · rintro ⟨⟨index, hash, structural⟩, nonempty, size, quorum, inside, σ, parse, verified⟩
    obtain ⟨signature, algorithm⟩ := structural.resolve_left nonempty
    rw [signerKeys_eq inside, verifySameMessageMultisig_iff I inside] at verified
    exact ⟨index, hash, nonempty, algorithm, size, quorum, inside, signature, σ, parse, verified⟩
  · intro h
    obtain ⟨signature, σ, parse, built⟩ := h.signed
    refine ⟨⟨h.index, h.hash, .inr ⟨signature, h.algorithm⟩⟩, h.nonempty, h.size, h.quorum,
      h.inside, σ, parse, ?_⟩
    rw [signerKeys_eq h.inside, verifySameMessageMultisig_iff I h.inside]
    exact built

lemma verifyCertificate_congr {P Q : BftConsensusProvider B} (h : P.validators = Q.validators)
    (c : QuorumCertificate) (b : Block) : P.verifyCertificate c b = Q.verifyCertificate c b := by
  simp only [verifyCertificate, validatorCount, quorum, h]

lemma quorum_pos (P : BftConsensusProvider B) : 0 < P.quorum := Nat.succ_pos _

lemma attested_of_built (I : B.Ideal) (fits : P.validators.length < 2 ^ 63) (b : Block)
    {bitmap : Bytes} {σ : B.Signature} (length : bitmap.length = bitmapLen P.validators.length)
    (inside : ∀ i ∈ expandSigners bitmap, i < P.validators.length)
    (enough : P.quorum ≤ (expandSigners bitmap).length)
    (built : I.built σ = (expandSigners bitmap : Multiset Nat).map
      fun i => (P.keyAt i, voteMessage b.hash)) :
    Attested I P ⟨b.index, b.hash, bitmap, B.signatureBytes σ, .bls12381⟩ b where
  index := rfl
  hash := rfl
  nonempty := by
    rintro rfl
    exact absurd (P.quorum_pos.trans_le enough) (by decide)
  algorithm := rfl
  size := length ▸ bitmapLen_fits fits
  quorum := enough
  inside := inside
  signed := ⟨I.signature_nonempty σ, σ, I.signature_round σ, built⟩

lemma exists_attested (I : B.Ideal) (fits : P.validators.length < 2 ^ 63) (b : Block)
    {S : Finset Nat} (inside : ∀ i ∈ S, i < P.validators.length) (enough : P.quorum ≤ S.card) :
    ∃ c, Attested I P c b ∧ ∃ σ, B.signatureOfBytes c.aggregateSignature = .ok σ ∧
      I.built σ = S.val.map fun i => (P.keyAt i, voteMessage b.hash) := by
  obtain ⟨bitmap, length, bits⟩ := @exists_bitmap (bitmapLen P.validators.length) S
    fun i hi => (inside i hi).trans_le (bitmapLen_covers _)
  have signers : (expandSigners bitmap : Multiset Nat) = S.val :=
    (Multiset.Nodup.ext (Multiset.coe_nodup.mpr (expand_nodup bitmap)) S.nodup).mpr
      fun i => by simpa [expandSigners] using bits i
  have secret : ∀ i, ∃ sk, i ∈ S → B.encodedKey sk = P.keyAt i := by
    intro i
    by_cases hi : i ∈ S
    · obtain ⟨sk, hsk⟩ := keyAt_private I (inside i hi)
      exact ⟨sk, fun _ => hsk⟩
    · exact ⟨P.signingKey, fun h => absurd h hi⟩
  choose sk hsk using secret
  -- one signature for every index, aggregated
  have some : S.toList.map (fun i => B.sign (sk i) (voteMessage b.hash)) ≠ [] := by
    rw [Ne, map_eq_nil_iff, Finset.toList_eq_nil]
    exact (Finset.card_pos.mp (P.quorum_pos.trans_le enough)).ne_empty
  obtain ⟨σ, -, built⟩ := I.aggregate_ok _ some
  have worth : I.built σ = S.val.map fun i => (P.keyAt i, voteMessage b.hash) := by
    have single : ∀ i ∈ S.toList, I.built (B.sign (sk i) (voteMessage b.hash)) =
        {(P.keyAt i, voteMessage b.hash)} := by
      intro i hi
      rw [I.built_sign, hsk i (Finset.mem_toList.mp hi)]
    rw [built, I.sum_built single, Finset.coe_toList]
  refine ⟨_, attested_of_built I fits b length ?_ ?_ ?_, σ, I.signature_round σ, worth⟩
  · exact fun i hi => inside i ((bits i).mp hi)
  · rwa [← Multiset.coe_card, signers]
  · rw [signers, worth]

lemma indexOf_eq_some {key : Bytes} (h : P.indexOf key = some i) :
    i < P.validators.length ∧ P.keyAt i = key := by
  obtain ⟨inside, found, -⟩ := findIdx?_eq_some_iff_getElem.mp h
  exact ⟨inside, (keyAt_of_getElem? (getElem?_eq_getElem inside)).trans (beq_iff_eq.mp found)⟩

lemma verifyVote_eq_ok {v : BftVote} :
    P.verifyVote v = .ok i ↔ v.verify B = .ok () ∧ P.indexOf v.publicKey = some i := by
  unfold verifyVote
  cases P.indexOf v.publicKey <;> simp [bind_eq_ok, Unique.exists_iff]

lemma verifyVote_signVote (I : B.Ideal) {Q : BftConsensusProvider B}
    (member : P.indexOf Q.publicKey = some i) (chainId : String) (height round : Nat)
    (phase : VotePhase) (blockHash : String) :
    P.verifyVote (Q.signVote chainId height round phase blockHash) = .ok i :=
  verifyVote_eq_ok.mpr ⟨verify_sign I chainId height round phase blockHash _, member⟩

/-- What the loop of `aggregate_votes` maintains while voter `i` votes for the hash `named i`: the
signatures are worth one signature over that hash for every bit set so far. -/
structure Gathered (I : B.Ideal) (P : BftConsensusProvider B) (named : Nat → String)
    (bitmap : Bytes) (signatures : List B.Signature) : Prop where
  length : bitmap.length = bitmapLen P.validators.length
  inside : ∀ i ∈ expandSigners bitmap, i < P.validators.length
  built : (signatures.map I.built).sum = (expandSigners bitmap : Multiset Nat).map
    fun i => (P.keyAt i, BftVote.voteMessage (named i))

/-- The same for voters who all vote for `hash`. -/
structure Collected (I : B.Ideal) (P : BftConsensusProvider B) (hash : String) (bitmap : Bytes)
    (signatures : List B.Signature) : Prop where
  length : bitmap.length = bitmapLen P.validators.length
  inside : ∀ i ∈ expandSigners bitmap, i < P.validators.length
  built : (signatures.map I.built).sum = (expandSigners bitmap : Multiset Nat).map
    fun i => (P.keyAt i, BftVote.voteMessage hash)

variable {I : B.Ideal} {named : Nat → String} {hash : String} {bitmap : Bytes}
  {signatures : List B.Signature}

lemma gathered_const_iff :
    Gathered I P (fun _ => hash) bitmap signatures ↔ Collected I P hash bitmap signatures :=
  ⟨fun h => ⟨h.length, h.inside, h.built⟩, fun h => ⟨h.length, h.inside, h.built⟩⟩

lemma gathered_nil : Gathered I P named (replicate (bitmapLen P.validators.length) 0) [] :=
  ⟨by simp, by simp [expandSigners, expand_replicate_zero],
    by simp [expandSigners, expand_replicate_zero]⟩

lemma Gathered.covers (h : Gathered I P named bitmap signatures) {i : Nat}
    (inside : i < P.validators.length) : i < 8 * bitmap.length := by
  rw [h.length]
  exact inside.trans_le (bitmapLen_covers _)

lemma Gathered.set (h : Gathered I P named bitmap signatures) {i : Nat} {σ : B.Signature}
    (inside : i < P.validators.length) (fresh : i ∉ expandSigners bitmap)
    (built : I.built σ = {(P.keyAt i, BftVote.voteMessage (named i))}) :
    Gathered I P named (setBit bitmap i) (signatures ++ [σ]) := by
  have bits : (expandSigners (setBit bitmap i) : Multiset Nat) = i ::ₘ expandSigners bitmap := by
    refine (Multiset.Nodup.ext (Multiset.coe_nodup.mpr (expand_nodup _)) ?_).mpr fun j => ?_
    · exact Multiset.nodup_cons.mpr ⟨fresh, Multiset.coe_nodup.mpr (expand_nodup _)⟩
    · rw [Multiset.mem_cons]
      exact mem_expand_setBit (h.covers inside)
  refine ⟨by rw [length_setBit, h.length], fun j hj => ?_, ?_⟩
  · cases (mem_expand_setBit (h.covers inside)).mp hj with
    | inl same => rwa [same]
    | inr before => exact h.inside j before
  · rw [map_append, sum_append, h.built, bits, Multiset.map_cons, map_singleton,
      sum_singleton, built, add_comm, Multiset.singleton_add]

variable {votes : List BftVote}

lemma collectSignatures_gathered (verified : ∀ v ∈ votes, ∃ i, P.verifyVote v = .ok i)
    (names : ∀ v ∈ votes, ∀ i, P.verifyVote v = .ok i → v.blockHash = named i)
    (h : Gathered I P named bitmap signatures) :
    ∃ bitmap' signatures', P.collectSignatures votes bitmap signatures = .ok (bitmap', signatures') ∧
      Gathered I P named bitmap' signatures' ∧ ∀ i, i ∈ expandSigners bitmap' ↔
        i ∈ expandSigners bitmap ∨ ∃ v ∈ votes, P.verifyVote v = .ok i := by
  induction votes generalizing bitmap signatures with
  | nil => exact ⟨bitmap, signatures, rfl, h, by simp⟩
  | cons v rest ih =>
    obtain ⟨i, hi⟩ := verified v (by simp)
    obtain ⟨vote, index⟩ := verifyVote_eq_ok.mp hi
    obtain ⟨inside, key⟩ := indexOf_eq_some index
    have restVerified : ∀ w ∈ rest, ∃ j, P.verifyVote w = .ok j := fun w hw =>
      verified w (by simp [hw])
    have restNames : ∀ w ∈ rest, ∀ j, P.verifyVote w = .ok j → w.blockHash = named j :=
      fun w hw => names w (by simp [hw])
    by_cases present : bitmapContains bitmap i = true
    · obtain ⟨bitmap', signatures', run, after, bits⟩ := ih restVerified restNames h
      have old := (bitmapContains_iff (h.covers inside)).mp present
      refine ⟨bitmap', signatures', ?_, after, fun j => ?_⟩
      · simp [collectSignatures, hi, bind, Except.bind, present, run]
      · rw [bits]
        constructor
        · rintro (before | ⟨w, hw, hj⟩)
          · exact .inl before
          · exact .inr ⟨w, by simp [hw], hj⟩
        · rintro (before | ⟨w, hw, hj⟩)
          · exact .inl before
          · cases mem_cons.mp hw with
            | inl first =>
              rw [first, hi, Except.ok.injEq] at hj
              exact .inl (hj ▸ old)
            | inr later => exact .inr ⟨w, later, hj⟩
    · obtain ⟨σ, parse, built⟩ := built_of_verify I vote
      have fresh : i ∉ expandSigners bitmap := fun old =>
        present ((bitmapContains_iff (h.covers inside)).mpr old)
      rw [names v (by simp) i hi, ← key] at built
      obtain ⟨bitmap', signatures', run, after, bits⟩ :=
        ih restVerified restNames (h.set inside fresh built)
      refine ⟨bitmap', signatures', ?_, after, fun j => ?_⟩
      · simp [collectSignatures, hi, bind, Except.bind, present, parse, parsed, Except.mapError, run]
      · rw [bits, expandSigners, mem_expand_setBit (h.covers inside)]
        constructor
        · rintro ((first | before) | ⟨w, hw, hj⟩)
          · exact .inr ⟨v, by simp, first ▸ hi⟩
          · exact .inl before
          · exact .inr ⟨w, by simp [hw], hj⟩
        · rintro (before | ⟨w, hw, hj⟩)
          · exact .inl (.inr before)
          · cases mem_cons.mp hw with
            | inl first =>
              rw [first, hi, Except.ok.injEq] at hj
              exact .inl (.inl hj.symm)
            | inr later => exact .inr ⟨w, later, hj⟩

lemma collectSignatures_spec (verified : ∀ v ∈ votes, ∃ i, P.verifyVote v = .ok i)
    (same : ∀ v ∈ votes, v.blockHash = hash) (h : Collected I P hash bitmap signatures) :
    ∃ bitmap' signatures', P.collectSignatures votes bitmap signatures = .ok (bitmap', signatures') ∧
      Collected I P hash bitmap' signatures' ∧ ∀ i, i ∈ expandSigners bitmap' ↔
        i ∈ expandSigners bitmap ∨ ∃ v ∈ votes, P.verifyVote v = .ok i := by
  obtain ⟨bitmap', signatures', run, after, bits⟩ :=
    collectSignatures_gathered verified (fun v hv _ _ => same v hv) (gathered_const_iff.mpr h)
  exact ⟨bitmap', signatures', run, gathered_const_iff.mp after, bits⟩

/-- The signatures of at least one voter aggregate. -/
theorem aggregateVotes_of_gathered {j : Nat}
    (run : P.collectSignatures votes (replicate (bitmapLen P.validators.length) 0) [] =
      .ok (bitmap, signatures)) (after : Gathered I P named bitmap signatures)
    (voter : j ∈ expandSigners bitmap) :
    ∃ σ, P.aggregateVotes votes = .ok (bitmap, B.signatureBytes σ) ∧
      I.built σ = (expandSigners bitmap : Multiset Nat).map
        fun i => (P.keyAt i, voteMessage (named i)) := by
  have some : signatures ≠ [] := by
    rintro rfl
    have none := after.built
    rw [map_nil, sum_nil, eq_comm, Multiset.map_eq_zero, Multiset.coe_eq_zero] at none
    simp [none] at voter
  obtain ⟨σ, aggregated, built⟩ := I.aggregate_ok signatures some
  refine ⟨σ, ?_, built.trans after.built⟩
  simp [aggregateVotes, run, bind, Except.bind, parsed, Except.mapError, aggregated, pure,
    Except.pure]

/-- Voters count by their keys. -/
theorem card_voters_le (verified : ∀ v ∈ votes, ∃ i, P.verifyVote v = .ok i)
    (voters : ∀ i, i ∈ expandSigners bitmap ↔ ∃ v ∈ votes, P.verifyVote v = .ok i) :
    (votes.map (·.publicKey)).toFinset.card ≤ (expandSigners bitmap).length := by
  have covered :
      (votes.map (·.publicKey)).toFinset ⊆ (expandSigners bitmap).toFinset.image P.keyAt := by
    intro key hkey
    obtain ⟨v, hv, rfl⟩ := mem_map.mp (mem_toFinset.mp hkey)
    obtain ⟨i, hi⟩ := verified v hv
    refine Finset.mem_image.mpr ⟨i, mem_toFinset.mpr ((voters i).mpr ⟨v, hv, hi⟩), ?_⟩
    exact (indexOf_eq_some (verifyVote_eq_ok.mp hi).2).2
  exact ((Finset.card_le_card covered).trans Finset.card_image_le).trans (toFinset_card_le _)

/-- Votes of a quorum for one hash aggregate into a certificate that is accepted, and its bits are
the voters'. -/
theorem aggregateVotes_attested (I : B.Ideal) (fits : P.validators.length < 2 ^ 63)
    (verified : ∀ v ∈ votes, ∃ i, P.verifyVote v = .ok i) (same : ∀ v ∈ votes, v.blockHash = hash)
    (enough : P.quorum ≤ (votes.map (·.publicKey)).toFinset.card) :
    ∃ bitmap aggregate, P.aggregateVotes votes = .ok (bitmap, aggregate) ∧
      (∀ i, i ∈ expandSigners bitmap ↔ ∃ v ∈ votes, P.verifyVote v = .ok i) ∧
      ∀ b : Block, b.hash = hash →
        Attested I P ⟨b.index, b.hash, bitmap, aggregate, .bls12381⟩ b := by
  have start : Collected I P hash (replicate (bitmapLen P.validators.length) 0) [] :=
    gathered_const_iff.mp gathered_nil
  obtain ⟨bitmap, signatures, run, after, bits⟩ := collectSignatures_spec verified same start
  have voters : ∀ i, i ∈ expandSigners bitmap ↔ ∃ v ∈ votes, P.verifyVote v = .ok i := by
    simpa [expandSigners, expand_replicate_zero] using bits
  have count : P.quorum ≤ (expandSigners bitmap).length :=
    enough.trans (card_voters_le verified voters)
  obtain ⟨j, voter⟩ : ∃ j, j ∈ expandSigners bitmap :=
    exists_mem_of_length_pos (P.quorum_pos.trans_le count)
  obtain ⟨σ, aggregated, built⟩ :=
    aggregateVotes_of_gathered run (gathered_const_iff.mpr after) voter
  refine ⟨bitmap, B.signatureBytes σ, aggregated, voters, ?_⟩
  rintro b rfl
  exact attested_of_built I fits b after.length after.inside count built

/-- At least two thirds of `n`, rounded down, plus one pairwise distinct keys signed the block's
vote message in the certificate's aggregate. -/
def SignedByQuorum (I : B.Ideal) (n : Nat) (c : QuorumCertificate) (b : Block) : Prop :=
  ∃ σ, B.signatureOfBytes c.aggregateSignature = .ok σ ∧ ∃ signed : Finset Bytes,
    2 * n / 3 + 1 ≤ signed.card ∧ ∀ key ∈ signed, (key, BftVote.voteMessage b.hash) ∈ I.built σ

lemma Attested.signedByQuorum {I : B.Ideal} (h : Attested I P c b)
    (fits : P.validators.length < 2 ^ 63) (distinct : P.keys.Nodup) :
    SignedByQuorum I P.validators.length c b := by
  obtain ⟨-, σ, parse, built⟩ := h.signed
  have nodup : ((expandSigners c.signersBitmap).map P.keyAt).Nodup := by
    refine (nodup_map_iff_inj_on (expand_nodup _)).mpr fun i hi j hj same => ?_
    exact keyAt_injective distinct (h.inside i hi) (h.inside j hj) same
  refine ⟨σ, parse, ((expandSigners c.signersBitmap).map P.keyAt).toFinset, ?_, ?_⟩
  · rw [toFinset_card_of_nodup nodup, length_map, ← quorumThreshold_eq fits]
    exact h.quorum
  · intro key hkey
    obtain ⟨i, hi, rfl⟩ := mem_map.mp (mem_toFinset.mp hkey)
    rw [built]
    exact Multiset.mem_map_of_mem _ hi

/-- With one key at two indices, a quorum of indices can be short of a quorum of keys. -/
theorem exists_attested_not_signedByQuorum (I : B.Ideal) (fits : P.validators.length < 2 ^ 63)
    (b : Block) {j : Nat} (hi : i < P.validators.length) (hj : j < P.validators.length)
    (differ : i ≠ j) (same : P.keyAt i = P.keyAt j) :
    ∃ c, Attested I P c b ∧ ¬SignedByQuorum I P.validators.length c b := by
  have pair : ({i, j} : Finset Nat) ⊆ Finset.range P.validators.length := by
    intro k hk
    rw [Finset.mem_insert, Finset.mem_singleton] at hk
    obtain rfl | rfl := hk <;> simpa
  have size : P.quorum = 2 * P.validators.length / 3 + 1 := quorumThreshold_eq fits
  have two : ({i, j} : Finset Nat).card = 2 := Finset.card_pair differ
  obtain ⟨S, both, inside, card⟩ := Finset.exists_subsuperset_card_eq pair
    (show ({i, j} : Finset Nat).card ≤ P.quorum by omega)
    (show P.quorum ≤ (Finset.range P.validators.length).card by rw [Finset.card_range]; omega)
  obtain ⟨c, attested, σ, parse, built⟩ := exists_attested I fits b
    (fun k hk => Finset.mem_range.mp (inside hk)) card.ge
  refine ⟨c, attested, ?_⟩
  rintro ⟨τ, parse', signed, enough, inBuilt⟩
  obtain rfl : σ = τ := Except.ok.inj (parse.symm.trans parse')
  -- dropping `j` loses no key
  have covered : signed ⊆ (S.erase j).image P.keyAt := by
    intro key hkey
    have member := inBuilt key hkey
    rw [built, Multiset.mem_map] at member
    obtain ⟨k, hk, entry⟩ := member
    obtain rfl : P.keyAt k = key := congrArg Prod.fst entry
    rw [Finset.mem_image]
    by_cases last : k = j
    · exact ⟨i, Finset.mem_erase.mpr ⟨differ, both (by simp)⟩, by rw [last, same]⟩
    · exact ⟨k, Finset.mem_erase.mpr ⟨last, hk⟩, rfl⟩
  have few := (Finset.card_le_card covered).trans Finset.card_image_le
  rw [Finset.card_erase_of_mem (both (by simp)), card] at few
  omega

/-- Every certificate a set accepts stands for a quorum of distinct keys exactly when no key stands
at two indices of the list. -/
theorem certificates_signed_by_quorum_iff (I : B.Ideal) {validators : List ValidatorInfo}
    {signingKey : B.PrivateKey} {P : BftConsensusProvider B}
    (registered : new validators signingKey = .ok P) (fits : validators.length < 2 ^ 63) :
    (∀ c b, P.verifyCertificate c b = .ok () → SignedByQuorum I validators.length c b) ↔
      (validators.map (·.publicKey)).Nodup := by
  obtain ⟨rfl, rfl⟩ := new_eq_ok.mp registered
  constructor
  · intro sound
    by_contra repeated
    rw [nodup_iff_getElem?_ne_getElem?] at repeated
    push Not at repeated
    obtain ⟨i, j, less, hj, same⟩ := repeated
    rw [length_map] at hj
    have genesis : Block := ⟨0, 0, [], [], "", 0, "", none⟩
    obtain ⟨c, attested, short⟩ := exists_attested_not_signedByQuorum I fits genesis
      (less.trans hj) hj less.ne (by simpa [keyAt] using congrArg (Option.getD · []) same)
    exact short (sound c genesis ((verifyCertificate_iff I).mpr attested))
  · intro distinct c b accepted
    exact ((verifyCertificate_iff I).mp accepted).signedByQuorum fits distinct

end BftConsensusProvider

noncomputable def sampleKey (k : UInt8) : (Multisig.symbolic 48).PrivateKey :=
  (⟨List.replicate 48 k, length_replicate⟩ : { key : List UInt8 // key.length = 48 })

variable (ks : List UInt8)

noncomputable def sampleValidators : List ValidatorInfo :=
  ks.zipIdx.map fun (k, i) =>
    ValidatorInfo.ofPrivateKey (Multisig.symbolic 48) (toString i) (sampleKey k)

@[simp]
lemma sampleValidators_keys :
    (sampleValidators ks).map (·.publicKey) = ks.map (replicate 48) := by
  unfold sampleValidators
  rw [map_map]
  nth_rewrite 2 [← zipIdx_map_fst 0 ks]
  rw [map_map]
  rfl

noncomputable def sampleProvider (k : UInt8) :
    BftConsensusProvider (Multisig.symbolic 48) where
  validators := sampleValidators ks
  signingKey := sampleKey k
  registered := by
    intro v hv
    obtain ⟨⟨k, i⟩, -, rfl⟩ := mem_map.mp hv
    exact ValidatorInfo.register_ofPrivateKey (Multisig.symbolicIdeal 48) _
      length_replicate

lemma new_sampleValidators (k : UInt8) :
    BftConsensusProvider.new (sampleValidators ks) (sampleKey k) = .ok (sampleProvider ks k) :=
  new_eq_ok.mpr ⟨rfl, rfl⟩

lemma sampleProvider_distinct {ks : List UInt8} (distinct : ks.Nodup) (k : UInt8) :
    (sampleProvider ks k).keys.Nodup := by
  rw [BftConsensusProvider.keys, sampleProvider, sampleValidators_keys]
  refine distinct.map fun i j same => ?_
  simpa using same

lemma sampleProvider_indexOf (ks' : List UInt8) (j k : UInt8) :
    (sampleProvider ks k).indexOf (sampleProvider ks' j).publicKey = ks.findIdx? (· == j) := by
  have keys : (sampleProvider ks k).indexOf (sampleProvider ks' j).publicKey =
      ((sampleValidators ks).map (·.publicKey)).findIdx? (· == replicate 48 j) := by
    rw [findIdx?_map]
    rfl
  rw [keys, sampleValidators_keys, findIdx?_map]
  refine congrArg (ks.findIdx? ·) (funext fun i => ?_)
  simp

/-- The only validator of a set certifies a hash by its own signature. -/
theorem exists_solo_attested (k : UInt8) (block : Block) : ∃ c,
    BftConsensusProvider.Attested (symbolicIdeal 48) (sampleProvider [k] k) c block := by
  obtain ⟨c, attested, -⟩ := exists_attested (P := sampleProvider [k] k)
    (S := {0}) (symbolicIdeal 48) (by simp [sampleProvider, sampleValidators]) block
    (by simp [sampleProvider, sampleValidators]) (by
      simp [quorum, sampleProvider, sampleValidators, quorumThreshold])
  exact ⟨c, attested⟩

theorem certificates_signed_by_quorum_iff_two :
    (∀ c b, (sampleProvider [1, 2] 1).verifyCertificate c b = .ok () →
      BftConsensusProvider.SignedByQuorum (symbolicIdeal 48)
        (sampleValidators [1, 2]).length c b) ↔
      ((sampleValidators [1, 2]).map (·.publicKey)).Nodup :=
  certificates_signed_by_quorum_iff (symbolicIdeal 48)
    (new_sampleValidators [1, 2] 1) (by simp [sampleValidators])

def twinBlock : Block := ⟨0, 0, [], [], "", 0, "", none⟩

def twinSignature : (Multisig.symbolic 48).Signature :=
  (List.replicate 2 (List.replicate 48 1, BftVote.voteMessage twinBlock.hash) :
    List (Bytes × Bytes))

noncomputable def twinCertificate : QuorumCertificate :=
  ⟨0, "", [3], (Multisig.symbolic 48).signatureBytes twinSignature, .bls12381⟩

/-- Two validators registered under one key: a certificate that only this key signed is accepted. -/
theorem certificate_of_one_key :
    BftConsensusProvider.new (sampleValidators [1, 1]) (sampleKey 1) =
        .ok (sampleProvider [1, 1] 1) ∧
      (sampleProvider [1, 1] 1).verifyCertificate twinCertificate twinBlock = .ok () ∧
      ¬BftConsensusProvider.SignedByQuorum (symbolicIdeal 48)
        (sampleValidators [1, 1]).length twinCertificate twinBlock := by
  have signers : expandSigners [3] = [0, 1] := by decide
  have count : (sampleProvider [1, 1] 1).validators.length = 2 := by
    simp [sampleProvider, sampleValidators]
  refine ⟨new_sampleValidators [1, 1] 1, ?_, ?_⟩
  · refine (verifyCertificate_iff (symbolicIdeal 48)).mpr
      (attested_of_built _ (by simp [count]) twinBlock ?_ ?_ ?_ ?_)
    · rw [count]
      rfl
    · intro i hi
      rw [signers] at hi
      rw [count]
      revert i
      decide
    · rw [signers, quorum, count]
      decide
    · rw [signers]
      rfl
  · rintro ⟨σ, parse, signed, enough, built⟩
    obtain rfl : twinSignature = σ :=
      Except.ok.inj ((symbolic_signature_round _).symm.trans parse)
    have one : signed ⊆ {replicate 48 1} := by
      intro key hkey
      have entry : (key, voteMessage twinBlock.hash) ∈
          (replicate 2 (replicate 48 1, voteMessage twinBlock.hash) :
            List (Bytes × Bytes)) := built key hkey
      exact Finset.mem_singleton.mpr (congrArg Prod.fst (eq_of_mem_replicate entry))
    have few := Finset.card_le_card one
    rw [Finset.card_singleton] at few
    rw [show (sampleValidators [1, 1]).length = 2 from count] at enough
    omega

end GlassChain
