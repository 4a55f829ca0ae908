import GlassChain.Library.Joined
import GlassChain.Network.Rounds
import GlassChain.Network.Storage

/-!
# Stored equivocation proofs

A detected equivocation is written to storage and read back at a start. The key of a proof holds its
height, its round and the voter, but not the phase, so that one slot serves two contexts and keeps
the proof that was written last.
-/

namespace GlassChain

open Library EquivocationProof List Multisig

/-- `serde_json` on proofs. -/
structure ProofCodec where
  encode : EquivocationProof → Bytes
  decode : Bytes → Except String EquivocationProof
  decode_encode : ∀ proof, decode (encode proof) = .ok proof

def equivocationPrefix : String := "equivocation:"

def equivocationKey (proof : EquivocationProof) : String :=
  equivocationPrefix ++ s!"{proof.height}:{proof.round}:{hexEncode proof.publicKey}"

def persistEquivocationProof (K : ProofCodec) (storage : WorldState) (proof : EquivocationProof) :
    WorldState :=
  storage.insert (equivocationKey proof) (K.encode proof)

/-- What is read under a listed key; an unreadable entry is skipped. -/
def readProof (K : ProofCodec) (storage : WorldState) (key : String) : Option EquivocationProof :=
  (storage.lookup key).bind fun raw => (K.decode raw).toOption

def loadEquivocationProofs (K : ProofCodec) (storage : WorldState) : List EquivocationProof :=
  (listStateKeys storage equivocationPrefix).filterMap (readProof K storage)

def EquivocationProof.context (proof : EquivocationProof) : ReceiptKey :=
  (proof.height, proof.round, proof.phase, proof.publicKey)

def persistAll (K : ProofCodec) (storage : WorldState) (proofs : List EquivocationProof) :
    WorldState :=
  proofs.foldl (persistEquivocationProof K) storage

/-- Two proofs are written to one slot. -/
structure SameSlot (p q : EquivocationProof) : Prop where
  height : p.height = q.height
  round : p.round = q.round
  voter : p.publicKey = q.publicKey

/-- Numbers are free of the separator, and the bytes of a key are determined by their text. -/
theorem equivocationKey_inj {p q : EquivocationProof} :
    equivocationKey p = equivocationKey q ↔ SameSlot p q := by
  constructor
  · intro same
    have texts : (toString p.height).toList ++ ':' :: ((toString p.round).toList ++
        ':' :: (hexEncode p.publicKey).toList) = (toString q.height).toList ++
        ':' :: ((toString q.round).toList ++ ':' :: (hexEncode q.publicKey).toList) := by
      simpa [equivocationKey, toString_text] using
        congrArg String.toList ((String.append_right_inj _).mp same)
    obtain ⟨height, rest⟩ :=
      joined_inj_first (colon_notMem_toString _) (colon_notMem_toString _) texts
    obtain ⟨round, voter⟩ :=
      joined_inj_first (colon_notMem_toString _) (colon_notMem_toString _) rest
    exact ⟨toString_inj.mp (String.toList_inj.mp height), toString_inj.mp (String.toList_inj.mp round),
      hexEncode_injective (String.toList_inj.mp voter)⟩
  · rintro ⟨height, round, voter⟩
    simp only [equivocationKey, height, round, voter]

lemma EquivocationProof.sameSlot_of_context {p q : EquivocationProof}
    (same : p.context = q.context) : SameSlot p q := by
  simp only [context, Prod.mk.injEq] at same
  exact ⟨same.1, same.2.1, same.2.2.2⟩

section Slots

variable {K : ProofCodec} {storage : WorldState} {proofs : List EquivocationProof}

lemma ProofCodec.encode_injective (K : ProofCodec) : Function.Injective K.encode := by
  intro p q same
  have decoded := K.decode_encode p
  rw [same, K.decode_encode] at decoded
  exact (Except.ok.inj decoded).symm

/-- A slot holds one of the proofs written to it, or what it held before. -/
theorem lookup_persistAll (K : ProofCodec) (storage : WorldState) (proofs : List EquivocationProof)
    (key : String) :
    (∃ p ∈ proofs, equivocationKey p = key ∧
      (persistAll K storage proofs).lookup key = some (K.encode p)) ∨
    (∀ p ∈ proofs, equivocationKey p ≠ key) ∧
      (persistAll K storage proofs).lookup key = storage.lookup key := by
  induction proofs using List.reverseRecOn with
  | nil => exact .inr ⟨by simp, rfl⟩
  | append_singleton proofs last ih =>
    have step : persistAll K storage (proofs ++ [last]) =
        (persistAll K storage proofs).insert (equivocationKey last) (K.encode last) := by
      simp [persistAll, persistEquivocationProof]
    by_cases own : equivocationKey last = key
    · subst own
      exact .inl ⟨last, by simp, rfl, by rw [step, AList.lookup_insert]⟩
    · rw [step, AList.lookup_insert_ne (Ne.symm own)]
      rcases ih with ⟨p, member, filed, found⟩ | ⟨none, same⟩
      · exact .inl ⟨p, by simp [member], filed, found⟩
      · refine .inr ⟨fun p member => ?_, same⟩
        rcases mem_append.mp member with earlier | now
        · exact none p earlier
        · rwa [mem_singleton.mp now]

/-- From a storage without evidence, a start loads the proofs that are still in their slot. -/
theorem mem_loadEquivocationProofs
    (fresh : ∀ rest, storage.lookup (equivocationPrefix ++ rest) = none) {q : EquivocationProof} :
    q ∈ loadEquivocationProofs K (persistAll K storage proofs) ↔ q ∈ proofs ∧
      (persistAll K storage proofs).lookup (equivocationKey q) = some (K.encode q) := by
  simp only [loadEquivocationProofs, mem_filterMap, mem_listStateKeys, readProof,
    Option.bind_eq_some_iff]
  constructor
  · rintro ⟨key, ⟨-, rest, rfl⟩, raw, found, read⟩
    rcases lookup_persistAll K storage proofs (equivocationPrefix ++ rest) with
      ⟨p, member, filed, written⟩ | ⟨-, same⟩
    · obtain rfl := Option.some.inj (found.symm.trans written)
      rw [K.decode_encode] at read
      cases read
      exact ⟨member, filed ▸ written⟩
    · rw [same, fresh] at found
      cases found
  · rintro ⟨-, written⟩
    refine ⟨equivocationKey q, ⟨?_, _, rfl⟩, _, written, by rw [K.decode_encode]; rfl⟩
    exact AList.lookup_isSome.mp (by simp [written])

end Slots

/-- From a storage without evidence, a start finds a proof that verifies for every context among
those persisted, exactly when no two of them differ in their phase alone. -/
theorem evidence_durable_iff (B : Multisig) (K : ProofCodec) {storage : WorldState}
    (fresh : ∀ rest, storage.lookup (equivocationPrefix ++ rest) = none)
    (proofs : List EquivocationProof) (detected : ∀ p ∈ proofs, p.verify B = .ok ()) :
    (∀ p ∈ proofs, ∃ q ∈ loadEquivocationProofs K (persistAll K storage proofs),
      q.context = p.context ∧ q.verify B = .ok ()) ↔
    ∀ p ∈ proofs, ∀ q ∈ proofs, SameSlot p q → p.phase = q.phase := by
  simp only [mem_loadEquivocationProofs fresh]
  constructor
  · intro durable p member q member' slot
    obtain ⟨p', ⟨-, held⟩, context, -⟩ := durable p member
    obtain ⟨q', ⟨-, held'⟩, context', -⟩ := durable q member'
    have key : equivocationKey p' = equivocationKey q' := by
      rw [equivocationKey_inj.mpr (sameSlot_of_context context), equivocationKey_inj.mpr slot,
        equivocationKey_inj.mpr (sameSlot_of_context context')]
    -- one slot holds one proof
    rw [key, held'] at held
    obtain rfl := K.encode_injective (Option.some.inj held)
    simp only [EquivocationProof.context, Prod.mk.injEq] at context context'
    exact context.2.2.1.symm.trans context'.2.2.1
  · intro apart p member
    rcases lookup_persistAll K storage proofs (equivocationKey p) with
      ⟨q, member', filed, written⟩ | ⟨none, -⟩
    · have slot := equivocationKey_inj.mp filed
      refine ⟨q, ⟨member', filed ▸ written⟩, ?_, detected q member'⟩
      simp only [EquivocationProof.context, slot.height, slot.round, slot.voter,
        apart q member' p member slot]
    · exact absurd rfl (none p member)

deriving instance Countable for VotePhase, BftVote, EquivocationProof

noncomputable def proofText (proof : EquivocationProof) : Bytes :=
  utf8 (Externals.unary ((Countable.exists_injective_nat EquivocationProof).choose proof))

lemma proofText_injective : Function.Injective proofText :=
  utf8_injective.comp (Externals.unary_injective.comp
    (Countable.exists_injective_nat EquivocationProof).choose_spec)

noncomputable def plainProofCodec : ProofCodec where
  encode := proofText
  decode raw := match Function.partialInv proofText raw with
    | some proof => .ok proof
    | none => .error "unreadable proof"
  decode_encode proof := by rw [Function.partialInv_left proofText_injective]

noncomputable def doubleVote (phase : VotePhase) : EquivocationProof :=
  let vote := fun hash => BftVote.sign (Multisig.symbolic 48) "main" 1 0 phase hash (sampleKey 1)
  ⟨1, 0, phase, (vote "a").publicKey, vote "a", vote "b"⟩

lemma doubleVote_verify (phase : VotePhase) :
    (doubleVote phase).verify (symbolic 48) = .ok () := by
  have verified (hash : String) := BftVote.verify_sign (symbolicIdeal 48) "main" 1 0 phase
    hash (sampleKey 1)
  simp only [EquivocationProof.verify, bind_eq_ok, require_eq_ok, EquivocationProof.agrees,
    Bool.and_eq_true, beq_iff_eq, bne_iff_ne]
  refine ⟨(), verified _, (), verified _, (), ?_, ?_⟩
  · simp [doubleVote, BftVote.sign]
  · simp [doubleVote, BftVote.sign]

/-- One proof is found again. -/
theorem evidence_durable_sample :
    let proofs := [doubleVote .prevote]
    ∀ p ∈ proofs, ∃ q ∈ loadEquivocationProofs plainProofCodec (persistAll plainProofCodec ∅
      proofs), q.context = p.context ∧ q.verify (symbolic 48) = .ok () := by
  intro proofs
  refine (evidence_durable_iff (symbolic 48) plainProofCodec (fun _ => rfl) proofs ?_).mpr ?_
  · intro p member
    rw [mem_singleton.mp member]
    exact doubleVote_verify .prevote
  · intro p member q member' _
    rw [mem_singleton.mp member, mem_singleton.mp member']

/-- A validator that votes twice in both phases: the proof against its prevotes is overwritten. -/
theorem prevote_evidence_lost :
    let proofs := [doubleVote .prevote, doubleVote .precommit]
    (∀ p ∈ proofs, p.verify (symbolic 48) = .ok ()) ∧
      ¬∃ q ∈ loadEquivocationProofs plainProofCodec (persistAll plainProofCodec ∅ proofs),
        q.context = (doubleVote .prevote).context := by
  intro proofs
  have slot : equivocationKey (doubleVote .prevote) = equivocationKey (doubleVote .precommit) :=
    equivocationKey_inj.mpr ⟨rfl, rfl, rfl⟩
  refine ⟨fun p member => ?_, ?_⟩
  · simp only [proofs, mem_cons, not_mem_nil, or_false] at member
    rcases member with rfl | rfl
    · exact doubleVote_verify .prevote
    · exact doubleVote_verify .precommit
  · rintro ⟨q, loaded, context⟩
    obtain ⟨-, held⟩ := (mem_loadEquivocationProofs fun _ => rfl).mp loaded
    have key := equivocationKey_inj.mpr (sameSlot_of_context context)
    rw [key, slot] at held
    have last : (persistAll plainProofCodec ∅ proofs).lookup
        (equivocationKey (doubleVote .precommit)) =
          some (plainProofCodec.encode (doubleVote .precommit)) := AList.lookup_insert _
    rw [last] at held
    obtain rfl := plainProofCodec.encode_injective (Option.some.inj held)
    exact absurd (congrArg (fun key : ReceiptKey => key.2.2.1) context) (by decide)

end GlassChain
