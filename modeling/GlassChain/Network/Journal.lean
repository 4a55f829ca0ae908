import GlassChain.Network.Equivocation

/-!
# The journal of votes

`handle_vote` records every verified vote and reports a second hash in one context. The journal is
keyed by height, round, phase and voter, without the chain. Each vote retires the receipts more than
one height below the height it claims, and a full journal drops everything below the vote it makes
room for. A receipt therefore lasts as long as nobody votes further ahead, and a vote for another
chain can take its place. Away from these cases two conflicting votes are reported.
-/

namespace GlassChain

open Library VoteReceipts AList BftConsensusProvider Validator List

namespace VoteReceipts

def heldFrom (r : VoteReceipts) (height : Nat) : Nat := (r.retain height).seen.entries.length

/-- What `handle_vote` does to the journal: retire, then record. -/
def deliver (r : VoteReceipts) (v : BftVote) : VoteReceipts × Option EquivocationProof :=
  (if 1 < v.height then r.retireBelow (v.height - 1) else r).record v

lemma lookup_retain (r : VoteReceipts) (height : Nat) (key : ReceiptKey) :
    (r.retain height).seen.lookup key = if height ≤ key.1 then r.seen.lookup key else none := by
  ext vote
  rw [← Option.mem_def, mem_lookup_iff]
  split
  · rename_i kept
    rw [← Option.mem_def, mem_lookup_iff]
    simp [retain, shouldRetain, kept]
  · rename_i dropped
    simp [retain, shouldRetain, dropped]

lemma length_retain_le (r : VoteReceipts) (height : Nat) :
    (r.retain height).seen.entries.length ≤ r.seen.entries.length := length_filter_le _ _

lemma length_insert_le (r : VoteReceipts) (v : BftVote) :
    (r.seen.insert (receiptKey v) v).entries.length ≤ r.seen.entries.length + 1 := by
  rw [entries_insert, length_cons]
  exact Nat.succ_le_succ (kerase_sublist _ _).length_le

/-- A vote is recorded among the receipts from the height below it on. -/
theorem deliver_retired (r : VoteReceipts) (v : BftVote) :
    ∃ r' : VoteReceipts, r.deliver v = r'.record v ∧
      (∀ key : ReceiptKey, r'.seen.lookup key =
        if v.height ≤ key.1 + 1 then r.seen.lookup key else none) ∧
      r'.seen.entries.length ≤ r.seen.entries.length ∧
      r'.heldFrom v.height = r.heldFrom v.height := by
  unfold deliver
  split
  · refine ⟨_, rfl, fun key => ?_, r.length_retain_le _, ?_⟩
    · rw [retireBelow, lookup_retain]
      exact if_congr (by omega) rfl rfl
    · simp only [heldFrom, retain, retireBelow, filter_filter]
      congr 2
      funext e
      simp only [shouldRetain]
      grind
  · exact ⟨r, rfl, fun key => (if_pos (by omega)).symm, le_rfl, rfl⟩

/-- A known context reports another hash and ignores the same one; a new context is entered, if need
be in the place of lower heights, or dropped. -/
theorem record_cases (r : VoteReceipts) (v : BftVote) :
    (∃ first, r.seen.lookup (receiptKey v) = some first ∧
      (first.blockHash ≠ v.blockHash ∧
          r.record v = (r, some ⟨v.height, v.round, v.phase, v.publicKey, first, v⟩) ∨
        first.blockHash = v.blockHash ∧ r.record v = (r, none))) ∨
    r.seen.lookup (receiptKey v) = none ∧
      (r.seen.entries.length < voteReceiptCap ∧
          r.record v = (⟨r.seen.insert (receiptKey v) v⟩, none) ∨
        voteReceiptCap ≤ r.seen.entries.length ∧
          (r.heldFrom v.height < r.seen.entries.length ∧
              r.record v = (⟨(r.retain v.height).seen.insert (receiptKey v) v⟩, none) ∨
            r.heldFrom v.height = r.seen.entries.length ∧
              r.record v = (r.retain v.height, none))) := by
  unfold record
  cases known : r.seen.lookup (receiptKey v) with
  | some first =>
    refine Or.inl ⟨first, rfl, ?_⟩
    by_cases same : first.blockHash = v.blockHash
    · exact Or.inr ⟨same, by simp [receiptAction, same]⟩
    · exact Or.inl ⟨same, by simp [receiptAction, same]⟩
  | none =>
    refine Or.inr ⟨rfl, ?_⟩
    by_cases room : r.seen.entries.length < voteReceiptCap
    · exact Or.inl ⟨room, by simp [receiptAction, room]⟩
    · refine Or.inr ⟨by omega, ?_⟩
      have bound := r.length_retain_le v.height
      by_cases freed : r.heldFrom v.height < r.seen.entries.length
      · refine Or.inl ⟨freed, ?_⟩
        simp only [heldFrom] at freed
        simp [receiptAction, room, evictStale, freed]
      · refine Or.inr ⟨by simp only [heldFrom] at freed ⊢; omega, ?_⟩
        simp only [heldFrom] at freed
        simp [receiptAction, room, evictStale, freed]

variable {r : VoteReceipts} {v : BftVote}

/-- Receipts of a height survive a vote of that height or below, and one of the next height while
the journal is not full. -/
theorem lookup_deliver {first : BftVote} {key : ReceiptKey}
    (near : v.height ≤ key.1 ∨ v.height = key.1 + 1 ∧ r.seen.entries.length < voteReceiptCap)
    (held : r.seen.lookup key = some first) : (r.deliver v).1.seen.lookup key = some first := by
  obtain ⟨r', delivered, retired, fewer, -⟩ := r.deliver_retired v
  have kept : r'.seen.lookup key = some first := by rw [retired, if_pos (by omega), held]
  have differ (new : r'.seen.lookup (receiptKey v) = none) : key ≠ receiptKey v := by
    rintro rfl
    rw [kept] at new
    cases new
  rw [delivered]
  obtain ⟨other, -, ⟨-, run⟩ | ⟨-, run⟩⟩ | ⟨new, ⟨-, run⟩ | ⟨full, ⟨-, run⟩ | ⟨-, run⟩⟩⟩ :=
    r'.record_cases v <;> rw [run]
  · exact kept
  · exact kept
  · rwa [lookup_insert_ne (differ new)]
  · rwa [lookup_insert_ne (differ new), lookup_retain, if_pos (by omega)]
  · rwa [lookup_retain, if_pos (by omega)]

/-- A first vote is entered unless the journal is full from its height on. -/
theorem deliver_enters (room : r.heldFrom v.height < voteReceiptCap)
    (new : r.seen.lookup (receiptKey v) = none) :
    (r.deliver v).1.seen.lookup (receiptKey v) = some v := by
  obtain ⟨r', delivered, retired, -, same⟩ := r.deliver_retired v
  rw [delivered]
  obtain ⟨first, known, -⟩ | ⟨-, ⟨-, run⟩ | ⟨full, ⟨-, run⟩ | ⟨stuck, -⟩⟩⟩ := r'.record_cases v
  · rw [retired, new, ite_self] at known
    cases known
  · rw [run, lookup_insert]
  · rw [run, lookup_insert]
  · omega

/-- A second hash in a context is returned. -/
theorem deliver_reports {first : BftVote} (held : r.seen.lookup (receiptKey v) = some first)
    (differ : first.blockHash ≠ v.blockHash) :
    (r.deliver v).2 = some ⟨v.height, v.round, v.phase, v.publicKey, first, v⟩ := by
  obtain ⟨r', delivered, retired, -⟩ := r.deliver_retired v
  have kept : r'.seen.lookup (receiptKey v) = some first := by
    rw [retired, held, if_pos (by simp [receiptKey])]
  obtain ⟨other, known, ⟨-, run⟩ | ⟨same, -⟩⟩ | ⟨new, -⟩ := r'.record_cases v
  · obtain rfl := Option.some.inj (known.symm.trans kept)
    rw [delivered, run]
  · obtain rfl := Option.some.inj (known.symm.trans kept)
    exact absurd same differ
  · rw [kept] at new
    cases new

/-- A vote further ahead than the next height erases the receipts of a height. -/
theorem lookup_deliver_ahead {key : ReceiptKey} (ahead : key.1 + 1 < v.height) (r : VoteReceipts) :
    (r.deliver v).1.seen.lookup key = none := by
  obtain ⟨r', delivered, retired, -⟩ := r.deliver_retired v
  have gone : r'.seen.lookup key = none := by rw [retired, if_neg (by omega)]
  have differ : key ≠ receiptKey v := by
    rintro rfl
    simp only [receiptKey] at ahead
    omega
  rw [delivered]
  obtain ⟨first, -, ⟨-, run⟩ | ⟨-, run⟩⟩ | ⟨-, ⟨-, run⟩ | ⟨-, ⟨-, run⟩ | ⟨-, run⟩⟩⟩ :=
    r'.record_cases v <;> rw [run]
  · exact gone
  · exact gone
  · rwa [lookup_insert_ne differ]
  · rw [lookup_insert_ne differ, lookup_retain, if_neg (by omega)]
  · rw [lookup_retain, if_neg (by omega)]

lemma deliver_silent (new : r.seen.lookup (receiptKey v) = none) : (r.deliver v).2 = none := by
  obtain ⟨r', delivered, retired, -⟩ := r.deliver_retired v
  rw [delivered]
  obtain ⟨first, known, -⟩ | ⟨-, ⟨-, run⟩ | ⟨-, ⟨-, run⟩ | ⟨-, run⟩⟩⟩ := r'.record_cases v
  · rw [retired, new, ite_self] at known
    cases known
  · rw [run]
  · rw [run]
  · rw [run]

lemma length_deliver_le (r : VoteReceipts) (v : BftVote) :
    (r.deliver v).1.seen.entries.length ≤ r.seen.entries.length + 1 := by
  obtain ⟨r', delivered, -, fewer, -⟩ := r.deliver_retired v
  have dropped := r'.length_retain_le v.height
  have entered := r'.length_insert_le v
  have replaced := (r'.retain v.height).length_insert_le v
  rw [delivered]
  obtain ⟨first, -, ⟨-, run⟩ | ⟨-, run⟩⟩ | ⟨-, ⟨-, run⟩ | ⟨-, ⟨-, run⟩ | ⟨-, run⟩⟩⟩ :=
    r'.record_cases v <;> rw [run] <;> dsimp only <;> omega

def Sound (B : Multisig) (r : VoteReceipts) : Prop :=
  ∀ key v, r.seen.lookup key = some v → receiptKey v = key ∧ v.verify B = .ok ()

lemma Sound.retain {B : Multisig} (sound : r.Sound B) (height : Nat) :
    (r.retain height).Sound B := by
  intro key v held
  rw [lookup_retain] at held
  split at held
  · exact sound key v held
  · cases held

lemma Sound.insert {B : Multisig} (sound : r.Sound B) (verified : v.verify B = .ok ()) :
    (⟨r.seen.insert (receiptKey v) v⟩ : VoteReceipts).Sound B := by
  intro key w held
  by_cases same : key = receiptKey v
  · subst same
    rw [lookup_insert] at held
    cases held
    exact ⟨rfl, verified⟩
  · rw [lookup_insert_ne same] at held
    exact sound key w held

lemma Sound.deliver {B : Multisig} {r : VoteReceipts} {v : BftVote} (sound : r.Sound B)
    (verified : v.verify B = .ok ()) : (r.deliver v).1.Sound B := by
  obtain ⟨r', delivered, retired, -⟩ := r.deliver_retired v
  have kept : r'.Sound B := by
    intro key w held
    rw [retired] at held
    split at held
    · exact sound key w held
    · cases held
  rw [delivered]
  obtain ⟨first, -, ⟨-, run⟩ | ⟨-, run⟩⟩ | ⟨-, ⟨-, run⟩ | ⟨-, ⟨-, run⟩ | ⟨-, run⟩⟩⟩ :=
    r'.record_cases v <;> rw [run]
  · exact kept
  · exact kept
  · exact kept.insert verified
  · exact (kept.retain _).insert verified
  · exact kept.retain _

end VoteReceipts

variable {B : Multisig} {X : Externals}

def Validator.Accepts (X : Externals) (v : Validator B) (vote : BftVote) : Prop :=
  ∃ P i, (deriveValidatorProvider X v.state).2 = some P ∧ P.verifyVote vote = .ok i

def Validator.evidence (v : Validator B) : VoteReceipts × List EquivocationProof :=
  (v.state.bftReceipts, v.state.equivocations)

namespace Validator

variable {v : Validator B} {vote : BftVote}

lemma evidence_vote (accepted : v.Accepts X vote) :
    (v.handle X (.vote vote)).evidence = ((v.state.bftReceipts.deliver vote).1,
      v.state.equivocations ++
        ((v.state.bftReceipts.deliver vote).2.filter fun p => (p.verify B).isOk).toList) := by
  obtain ⟨P, i, derived, verified⟩ := accepted
  obtain ⟨_, frame⟩ := deriveValidatorProvider_frame X v.state
  obtain ⟨_, run⟩ := onVote_frame X v vote
  rw [handle, run]
  unfold handleVote
  rcases held : deriveValidatorProvider X v.state with ⟨S, provider⟩
  rw [held] at derived frame
  obtain rfl : provider = some P := derived
  obtain rfl : S = _ := frame
  simp only [verified, evidence, VoteReceipts.deliver]

lemma evidence_rejected (rejected : ¬v.Accepts X vote) :
    (v.handle X (.vote vote)).evidence = v.evidence := by
  obtain ⟨_, frame⟩ := deriveValidatorProvider_frame X v.state
  obtain ⟨_, run⟩ := onVote_frame X v vote
  rw [handle, run]
  unfold handleVote
  rcases derived : deriveValidatorProvider X v.state with ⟨S, _ | P⟩
  · rw [derived] at frame
    obtain rfl : S = _ := frame
    rfl
  · rw [derived] at frame
    obtain rfl : S = _ := frame
    cases verified : P.verifyVote vote with
    | error e => simp only [verified, evidence]
    | ok i => exact absurd ⟨P, i, by rw [derived], verified⟩ rejected

variable {input : Input B}

/-- What a step does to journal and proofs: it journals an accepted vote, or it leaves both
alone. -/
theorem evidence_cases (X : Externals) (v : Validator B) (input : Input B) :
    (∃ vote, input = .vote vote ∧ v.Accepts X vote ∧
      (v.handle X input).state.bftReceipts = (v.state.bftReceipts.deliver vote).1 ∧
      (v.handle X input).state.equivocations = v.state.equivocations ++
        ((v.state.bftReceipts.deliver vote).2.filter fun p => (p.verify B).isOk).toList) ∨
    ((v.handle X input).state.bftReceipts = v.state.bftReceipts ∧
      (v.handle X input).state.equivocations = v.state.equivocations) := by
  by_cases isVote : ∃ vote, input = .vote vote
  · obtain ⟨vote, rfl⟩ := isVote
    by_cases accepted : v.Accepts X vote
    · exact Or.inl ⟨vote, rfl, accepted, Prod.ext_iff.mp (evidence_vote accepted)⟩
    · exact Or.inr (Prod.ext_iff.mp (evidence_rejected accepted))
  · exact Or.inr ((handle_lineage X v input).journal fun vote same => isVote ⟨vote, same⟩)

/-- The journal has a place for a vote: no receipt of its context is for another chain, and it is
not full from the height of the vote on. -/
structure Clear (v : Validator B) (vote : BftVote) : Prop where
  chain : ∀ first, v.state.bftReceipts.seen.lookup (VoteReceipts.receiptKey vote) = some first →
    first.chainId = vote.chainId
  room : v.state.bftReceipts.heldFrom vote.height < voteReceiptCap

/-- A step that leaves the receipts of a height alone: no vote is for more than the next height, and
one for the next height finds the journal below its bound. -/
def Spares (X : Externals) (height : Nat) (v : Validator B) : Input B → Prop
  | .vote vote => v.Accepts X vote → vote.height ≤ height ∨
      vote.height = height + 1 ∧ v.state.bftReceipts.seen.entries.length < voteReceiptCap
  | _ => True

def Detected (v : Validator B) (vote : BftVote) : Prop :=
  ∃ p ∈ v.state.equivocations, p.verify B = .ok () ∧
    (p.height, p.round, p.phase, p.publicKey) = VoteReceipts.receiptKey vote ∧
    p.firstVote.chainId = vote.chainId

variable {v' : Validator B} {key : ReceiptKey} {first a b : BftVote}

lemma sound_step (sound : v.state.bftReceipts.Sound B) :
    (v.handle X input).state.bftReceipts.Sound B := by
  obtain ⟨vote, -, ⟨P, i, -, verified⟩, journal, -⟩ | ⟨journal, -⟩ := evidence_cases X v input
  · rw [journal]
    exact sound.deliver (verifyVote_eq_ok.mp verified).1
  · rwa [journal]

lemma Detected.step {vote : BftVote} (detected : v.Detected vote) (X : Externals)
    (input : Input B) : (v.handle X input).Detected vote := by
  obtain ⟨p, member, rest⟩ := detected
  refine ⟨p, ?_, rest⟩
  obtain ⟨_, -, -, -, proofs⟩ | ⟨-, proofs⟩ := evidence_cases X v input
  · rw [proofs]
    exact mem_append_left _ member
  · rwa [proofs]

lemma lookup_step (spares : v.Spares X key.1 input)
    (held : v.state.bftReceipts.seen.lookup key = some first) :
    (v.handle X input).state.bftReceipts.seen.lookup key = some first := by
  obtain ⟨vote, rfl, accepted, journal, -⟩ | ⟨journal, -⟩ := evidence_cases X v input
  · rw [journal]
    exact lookup_deliver (spares accepted) held
  · rwa [journal]

/-- A vote against a receipt of the same chain and another hash is detected. -/
theorem detected_of_receipt (sound : v.state.bftReceipts.Sound B) (accepted : v.Accepts X b)
    (held : v.state.bftReceipts.seen.lookup (VoteReceipts.receiptKey b) = some first)
    (chain : first.chainId = b.chainId) (differ : first.blockHash ≠ b.blockHash) :
    (v.handle X (.vote b)).Detected b := by
  have proofs := congrArg Prod.snd (evidence_vote accepted)
  change (v.handle X (.vote b)).state.equivocations = _ at proofs
  rw [deliver_reports held differ] at proofs
  obtain ⟨P, i, -, verified⟩ := accepted
  obtain ⟨filed, genuine⟩ := sound _ _ held
  have verifies : (⟨b.height, b.round, b.phase, b.publicKey, first, b⟩ :
      EquivocationProof).verify B = .ok () := by
    have context := filed
    simp only [VoteReceipts.receiptKey, Prod.mk.injEq] at context
    obtain ⟨height, round, phase, voter⟩ := context
    simp only [EquivocationProof.verify, EquivocationProof.agrees, bind_eq_ok, require_eq_ok,
      (verifyVote_eq_ok.mp verified).1, genuine]
    simp [differ, height, round, phase, voter, chain]
  refine ⟨_, ?_, verifies, rfl, chain⟩
  rw [proofs]
  simp [verifies, Except.isOk, Except.toBool]

/-- What the first vote leaves behind: a receipt of its chain in its context, with its hash unless
the conflict was detected there and then. -/
theorem receipt_of_first (sound : v.state.bftReceipts.Sound B) (accepted : v.Accepts X a)
    (clear : v.Clear a) :
    ∃ first, (v.handle X (.vote a)).state.bftReceipts.seen.lookup (VoteReceipts.receiptKey a) =
        some first ∧ first.chainId = a.chainId ∧
      (first.blockHash = a.blockHash ∨ (v.handle X (.vote a)).Detected a) := by
  have journal := congrArg Prod.fst (evidence_vote accepted)
  change (v.handle X (.vote a)).state.bftReceipts = _ at journal
  cases known : v.state.bftReceipts.seen.lookup (VoteReceipts.receiptKey a) with
  | none =>
    refine ⟨a, ?_, rfl, Or.inl rfl⟩
    rw [journal]
    exact deliver_enters clear.room known
  | some first =>
    have chain := clear.chain first known
    refine ⟨first, ?_, chain, ?_⟩
    · rw [journal]
      exact lookup_deliver (Or.inl le_rfl) known
    · by_cases same : first.blockHash = a.blockHash
      · exact Or.inl same
      · exact Or.inr (detected_of_receipt sound accepted known chain same)

/-- Two accepted votes of one voter, chain and context for different hashes are detected by the time
the second one is handled, in every run in which the journal has a place for the first and the steps
in between spare its height. -/
theorem equivocation_detected_along_runs {v₀ v₁ v₂ : Validator B}
    (start : v₀.state.bftReceipts.seen = ∅) (before : Reaches (Step X) anyStep v₀ v₁)
    (firstAccepted : v₁.Accepts X a) (clear : v₁.Clear a)
    (between : Reaches (Step X) (Spares X a.height) (v₁.handle X (.vote a)) v₂)
    (secondAccepted : v₂.Accepts X b)
    (context : VoteReceipts.receiptKey b = VoteReceipts.receiptKey a)
    (chain : b.chainId = a.chainId) (differ : a.blockHash ≠ b.blockHash) :
    (v₂.handle X (.vote b)).Detected a := by
  have sound₁ : v₁.state.bftReceipts.Sound B := by
    refine before.invariant (I := fun v => v.state.bftReceipts.Sound B) ?_ ?_
    · rintro v input _ sound - rfl
      exact sound_step sound
    · intro key vote held
      rw [start] at held
      cases held
  have sound₂ : v₂.state.bftReceipts.Sound B := by
    refine between.invariant (I := fun v => v.state.bftReceipts.Sound B) ?_ (sound_step sound₁)
    rintro v input _ sound - rfl
    exact sound_step sound
  obtain ⟨first, held, same, hash⟩ := receipt_of_first sound₁ firstAccepted clear
  obtain ⟨held, hash⟩ : v₂.state.bftReceipts.seen.lookup (VoteReceipts.receiptKey a) = some first ∧
      (first.blockHash = a.blockHash ∨ v₂.Detected a) := by
    refine between.invariant (I := fun v => v.state.bftReceipts.seen.lookup
      (VoteReceipts.receiptKey a) = some first ∧ (first.blockHash = a.blockHash ∨ v.Detected a)) ?_
      ⟨held, hash⟩
    rintro v input _ ⟨held, hash⟩ spares rfl
    exact ⟨lookup_step spares held, hash.imp_right fun detected => detected.step X input⟩
  have sameContext {v : Validator B} (detected : v.Detected b) : v.Detected a := by
    simpa only [Detected, context, chain] using detected
  by_cases conflict : first.blockHash = b.blockHash
  · obtain own | detected := hash
    · exact absurd (own.symm.trans conflict) differ
    · exact detected.step X _
  · rw [← context] at held
    exact sameContext (detected_of_receipt sound₂ secondAccepted held (same.trans chain.symm) conflict)

end Validator

noncomputable def journalVote (k : UInt8) (height : Nat) (hash : String) : BftVote :=
  (sampleProvider [1, 2] k).signVote (sealedGenesis (.plain 0)).hash height 0 .prevote hash

lemma SampleState.handle_vote {P : BftConsensusProvider B} {v : Validator B}
    (sample : SampleState X P v) (vote : BftVote) :
    SampleState X P (v.handle X (.vote vote)) := by
  obtain ⟨_, run⟩ := onVote_frame X v vote
  obtain ⟨_, _, handled⟩ := handleVote_frame X v.state vote
  rw [sample.derived] at handled
  rw [Validator.handle, run, handled]
  exact ⟨sample.ledger, sample.consensus, sample.world, sample.cache⟩

lemma SampleState.accepts {v : Validator (Multisig.symbolic 48)}
    (sample : SampleState (.plain 0) (sampleProvider [1, 2] 1) v) {k : UInt8} (member : k ∈ [1, 2])
    (height : Nat) (hash : String) : v.Accepts (.plain 0) (journalVote k height hash) := by
  obtain ⟨i, found⟩ : ∃ i, (sampleProvider [1, 2] 1).indexOf (sampleProvider [1, 2] k).publicKey =
      some i := by
    rw [sampleProvider_indexOf]
    fin_cases member
    · exact ⟨0, rfl⟩
    · exact ⟨1, rfl⟩
  exact ⟨_, i, by rw [sample.derived],
    verifyVote_signVote (Multisig.symbolicIdeal 48) found _ _ _ _ _⟩

/-- Two votes in a row, the first into an empty journal. -/
theorem equivocation_detected_at_once :
    let v₀ := sampleValidator (.plain 0) [1, 2] 1
    ((v₀.handle (.plain 0) (.vote (journalVote 1 1 "a"))).handle (.plain 0)
      (.vote (journalVote 1 1 "b"))).Detected (journalVote 1 1 "a") := by
  have sample := sampleValidator_sample (.plain 0) [1, 2] 1
  refine equivocation_detected_along_runs (X := .plain 0) rfl (.refl _)
    (sample.accepts (by decide) 1 "a") ⟨fun _ held => (by cases held), by decide⟩ (.refl _)
    ((sample.handle_vote _).accepts (by decide) 1 "b") rfl rfl ?_
  decide

/-- Between the two votes another validator votes for height 3: the first receipt is gone, and the
second vote is taken for a first one. -/
theorem equivocation_erased :
    let v₀ := sampleValidator (.plain 0) [1, 2] 1
    let a := journalVote 1 1 "a"
    let b := journalVote 1 1 "b"
    let v₁ := v₀.handle (.plain 0) (.vote a)
    let v₂ := v₁.handle (.plain 0) (.vote (journalVote 2 3 "c"))
    let v₃ := v₂.handle (.plain 0) (.vote b)
    v₀.Accepts (.plain 0) a ∧ v₂.Accepts (.plain 0) b ∧
      VoteReceipts.receiptKey b = VoteReceipts.receiptKey a ∧ b.chainId = a.chainId ∧
      a.chainId = v₀.ledger.chainId ∧ a.blockHash ≠ b.blockHash ∧ v₃.ledger = v₀.ledger ∧
      (∀ v ∈ [v₀, v₁, v₂, v₃], v.state.bftReceipts.heldFrom 0 < voteReceiptCap) ∧
      v₃.state.equivocations = [] := by
  intro v₀ a b v₁ v₂ v₃
  have sample₀ := sampleValidator_sample (.plain 0) [1, 2] 1
  have sample₁ : SampleState (.plain 0) _ v₁ := sample₀.handle_vote _
  have sample₂ : SampleState (.plain 0) _ v₂ := sample₁.handle_vote _
  have sample₃ : SampleState (.plain 0) _ v₃ := sample₂.handle_vote _
  have accepted₁ : v₀.Accepts (.plain 0) a := sample₀.accepts (by decide) _ _
  have accepted₂ : v₁.Accepts (.plain 0) (journalVote 2 3 "c") := sample₁.accepts (by decide) _ _
  have accepted₃ : v₂.Accepts (.plain 0) b := sample₂.accepts (by decide) _ _
  obtain ⟨journal₁, proofs₁⟩ := Prod.ext_iff.mp (evidence_vote accepted₁)
  obtain ⟨journal₂, proofs₂⟩ := Prod.ext_iff.mp (evidence_vote accepted₂)
  obtain ⟨journal₃, proofs₃⟩ := Prod.ext_iff.mp (evidence_vote accepted₃)
  change v₁.state.bftReceipts = _ at journal₁
  change v₂.state.bftReceipts = _ at journal₂
  change v₃.state.bftReceipts = _ at journal₃
  change v₁.state.equivocations = [] ++ _ at proofs₁
  change v₂.state.equivocations = _ at proofs₂
  change v₃.state.equivocations = _ at proofs₃
  have erased : v₂.state.bftReceipts.seen.lookup (VoteReceipts.receiptKey b) = none := by
    rw [journal₂]
    exact lookup_deliver_ahead (by decide) _
  have fresh : v₁.state.bftReceipts.seen.lookup
      (VoteReceipts.receiptKey (journalVote 2 3 "c")) = none := by
    have entered : v₀.state.bftReceipts.deliver a =
        (⟨(∅ : AList _).insert (VoteReceipts.receiptKey a) a⟩, none) := rfl
    rw [journal₁, entered, lookup_insert_ne (by decide)]
    rfl
  refine ⟨accepted₁, accepted₃, rfl, rfl, rfl, by decide, sample₃.ledger, ?_, ?_⟩
  · have few₁ := length_deliver_le v₀.state.bftReceipts a
    have few₂ := length_deliver_le v₁.state.bftReceipts (journalVote 2 3 "c")
    have few₃ := length_deliver_le v₂.state.bftReceipts b
    rw [← journal₁] at few₁
    rw [← journal₂] at few₂
    rw [← journal₃] at few₃
    have few₀ : v₀.state.bftReceipts.seen.entries.length = 0 := rfl
    intro v member
    refine lt_of_le_of_lt (length_retain_le _ 0) ?_
    simp only [voteReceiptCap]
    simp only [mem_cons, not_mem_nil, or_false] at member
    obtain rfl | rfl | rfl | rfl := member <;> omega
  · rw [proofs₃, proofs₂, proofs₁, deliver_silent erased, deliver_silent fresh, deliver_silent rfl]
    rfl

end GlassChain
