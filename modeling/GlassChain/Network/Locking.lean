import GlassChain.Network.Equivocation

/-!
# Locks

A precommit locks its signer on a hash until the height is decided or a later prevote certificate
releases it. The lock is kept in the round record, which a proposal for any other height replaces, a
registration rebuilds, and the leader's own precommit never enters. `LockedAgainst` reads the lock
off the history of what was signed; a run keeps its locks when the record still holds them at every
conflicting proposal and drivers do not work against them.
-/

namespace GlassChain

open Library List Validator

variable {B : Multisig} {X : Externals}

/-- A precommit was signed, and no block of its height has been appended since. -/
def OpenPrecommit (history : List Event) (ballot : BftVote) : Prop :=
  ∃ before after, history = before ++ .signed ballot :: after ∧ ballot.phase = .precommit ∧
    ∀ m n, .grew m n ∈ after → ¬(m ≤ ballot.height ∧ ballot.height < n)

/-- Signing `hash` at this height and round would break a lock: another hash was precommitted in the
same or an earlier round, its height is open, and no prevote certificate for `hash` from a later
round was accepted. -/
def LockedAgainst (history : List Event) (height round : Nat) (hash : String) : Prop :=
  ∃ ballot, OpenPrecommit history ballot ∧ ballot.height = height ∧ ballot.round ≤ round ∧
    ballot.blockHash ≠ hash ∧ ∀ r, .certified height r hash ∈ history → r ≤ ballot.round

def LocksKept (history : List Event) : Prop :=
  ∀ before ballot after, history = before ++ .signed ballot :: after →
    ¬LockedAgainst before ballot.height ballot.round ballot.blockHash

section History

variable {history events : List Event} {e : Event} {height round : Nat} {hash : String}

lemma split_concat {before after : List Event} {x : Event}
    (split : history ++ [e] = before ++ x :: after) :
    before = history ∧ x = e ∨ ∃ rest, after = rest ++ [e] ∧ history = before ++ x :: rest := by
  cases after using List.reverseRecOn with
  | nil =>
    obtain ⟨same, last⟩ := append_inj' split rfl
    exact .inl ⟨same.symm, (singleton_inj.mp last).symm⟩
  | append_singleton rest last =>
    rw [← cons_append, ← append_assoc] at split
    obtain ⟨same, tail⟩ := append_inj' split rfl
    exact .inr ⟨rest, by rw [singleton_inj.mp tail], same⟩

lemma OpenPrecommit.of_concat {ballot : BftVote} (h : OpenPrecommit (history ++ [e]) ballot) :
    OpenPrecommit history ballot ∨ e = .signed ballot ∧ ballot.phase = .precommit := by
  obtain ⟨before, after, split, phase, still⟩ := h
  cases split_concat split with
  | inl last => exact .inr ⟨last.2.symm, phase⟩
  | inr earlier =>
    obtain ⟨rest, rfl, parts⟩ := earlier
    exact .inl ⟨before, rest, parts, phase, fun m n grew => still m n (mem_append_left _ grew)⟩

/-- A new lock comes from a new precommit. -/
theorem LockedAgainst.of_concat (h : LockedAgainst (history ++ [e]) height round hash) :
    LockedAgainst history height round hash ∨ ∃ ballot, e = .signed ballot ∧
      ballot.phase = .precommit ∧ ballot.height = height ∧ ballot.round ≤ round ∧
      ballot.blockHash ≠ hash := by
  obtain ⟨ballot, isOpen, atHeight, earlier, other, unreleased⟩ := h
  refine isOpen.of_concat.imp (fun before => ?_) fun ⟨signed, phase⟩ =>
    ⟨ballot, signed, phase, atHeight, earlier, other⟩
  exact ⟨ballot, before, atHeight, earlier, other,
    fun r certified => unreleased r (mem_append_left _ certified)⟩

lemma LockedAgainst.of_silent (silent : ∀ e ∈ events, e.silent = true)
    (h : LockedAgainst (history ++ events) height round hash) :
    LockedAgainst history height round hash := by
  induction events using List.reverseRecOn with
  | nil => simpa using h
  | append_singleton events e ih =>
    rw [← append_assoc] at h
    cases h.of_concat with
    | inl before => exact ih (fun x hx => silent x (mem_append_left _ hx)) before
    | inr new =>
      obtain ⟨ballot, rfl, -⟩ := new
      exact absurd (silent (.signed ballot) (by simp)) (by simp [Event.silent])

lemma LocksKept.concat (kept : LocksKept history)
    (new : ∀ ballot, e = .signed ballot →
      ¬LockedAgainst history ballot.height ballot.round ballot.blockHash) :
    LocksKept (history ++ [e]) := by
  intro before ballot after split
  cases split_concat split with
  | inl last =>
    rw [last.1]
    exact new ballot last.2.symm
  | inr earlier =>
    obtain ⟨rest, -, parts⟩ := earlier
    exact kept before ballot rest parts

lemma LocksKept.silent (kept : LocksKept history) (silent : ∀ e ∈ events, e.silent = true) :
    LocksKept (history ++ events) := by
  induction events using List.reverseRecOn with
  | nil => simpa using kept
  | append_singleton events e ih =>
    rw [← append_assoc]
    refine (ih fun x hx => silent x (mem_append_left _ hx)).concat ?_
    rintro ballot rfl
    exact absurd (silent (.signed ballot) (by simp)) (by simp [Event.silent])

end History

namespace Validator

/-- The live drivers of a height that are not behind `round` work on `hash`. -/
def DriversAgree (v : Validator B) (height round : Nat) (hash : String) : Prop :=
  ∀ id d, v.drivers id = some d → d.live = true → d.block.index = height → round ≤ d.round →
    d.block.hash = hash

/-- The record does its work: a proposal against a lock finds the record at its height, holding a
lock on another hash; a leader registers no block against a lock; and a new precommit contradicts
neither one of the same round nor a driver still at work. -/
def RecordHoldsLocks (v : Validator B) : Input B → Prop
  | .proposal block round => LockedAgainst v.history block.index round block.hash →
      ∃ r hash, v.state.bftRound = some r ∧ r.height = block.index ∧ r.locked = some hash ∧
        hash ≠ block.hash
  | .register id => ∀ d provider, v.drivers id = some d → d.stage = .derived provider true →
      ¬LockedAgainst v.history d.block.index d.round d.block.hash
  | .precommit block round _ => ∀ r, v.state.bftRound = some r → r.height = block.index →
      r.round = round →
      (∀ ballot, OpenPrecommit v.history ballot → ballot.height = block.index →
        ballot.round = round → ballot.blockHash = block.hash) ∧
      v.DriversAgree block.index round block.hash
  | .prevotes id _ => ∀ d, v.drivers id = some d →
      v.DriversAgree d.block.index d.round d.block.hash
  | _ => True

/-- No lock was broken, and no live driver works against one. -/
structure Unbroken (v : Validator B) : Prop where
  kept : LocksKept v.history
  drivers : ∀ id d, v.drivers id = some d → d.live = true →
    ¬LockedAgainst v.history d.block.index d.round d.block.hash

variable {v v' : Validator B} {input : Input B}

/-- The drivers' part after a step that brings no new precommit against one of them. -/
theorem Unbroken.drivers_of_step (unbroken : v.Unbroken) (drivers : v.KeepsDrivers v')
    (locks : ∀ id d, v.drivers id = some d → d.live = true →
      LockedAgainst v'.history d.block.index d.round d.block.hash →
      LockedAgainst v.history d.block.index d.round d.block.hash) :
    ∀ id d, v'.drivers id = some d → d.live = true →
      ¬LockedAgainst v'.history d.block.index d.round d.block.hash := by
  intro id d' hd' live locked
  obtain ⟨d, hd, alive, block, round⟩ := drivers id d' hd' live
  rw [block, round] at locked
  exact unbroken.drivers id d hd alive (locks id d hd alive locked)

/-- A signature that breaks no lock, and is not a precommit against a live driver. -/
theorem Unbroken.sign {height round : Nat} {phase : VotePhase} {hash : String} {ballot : BftVote}
    {history : List Event} (unbroken : v.Unbroken) (kept : LocksKept history)
    (vote : v.Votes X height round phase hash ballot) (drivers : v.KeepsDrivers v')
    (history_eq : v'.history = history ++ [.signed ballot])
    (allowed : ¬LockedAgainst history height round hash)
    (locks : ∀ id d, v.drivers id = some d → d.live = true →
      LockedAgainst history d.block.index d.round d.block.hash →
      LockedAgainst v.history d.block.index d.round d.block.hash)
    (agree : phase = .precommit → v.DriversAgree height round hash) : v'.Unbroken := by
  obtain ⟨provider, chainId, -, rfl⟩ := vote
  constructor
  · rw [history_eq]
    refine kept.concat ?_
    rintro _ ⟨⟩
    exact allowed
  · refine unbroken.drivers_of_step drivers fun id d hd live locked => ?_
    rw [history_eq] at locked
    cases locked.of_concat with
    | inl before => exact locks id d hd live before
    | inr new =>
      obtain ⟨_, ⟨⟩, isPrecommit, atHeight, earlier, other⟩ := new
      exact absurd (agree isPrecommit id d hd live atHeight.symm earlier) other.symm

lemma Unbroken.step (unbroken : v.Unbroken) (ok : v.RecordHoldsLocks input)
    (effect : v.Effect X v' input) : v'.Unbroken := by
  cases effect with
  | quiet events _ drivers silent history =>
    constructor
    · rw [history]
      exact unbroken.kept.silent silent
    · refine unbroken.drivers_of_step drivers fun id d _ _ locked => ?_
      rw [history] at locked
      exact locked.of_silent silent
  | @prevoted block round ballot unlocked _ record drivers vote history =>
    refine unbroken.sign unbroken.kept vote drivers history ?_ (fun _ _ _ _ h => h)
      (fun h => by cases h)
    intro locked
    obtain ⟨r, hash, before, height, held, other⟩ := ok locked
    rw [takeRound_of_record before height] at unlocked
    exact other (unlocked hash held)
  | abstained _ drivers history =>
    constructor
    · rw [history]
      exact unbroken.kept
    · refine unbroken.drivers_of_step drivers fun id d _ _ locked => ?_
      rwa [history] at locked
  | @precommitted block round certificate r ballot before height current record drivers vote
      history =>
    -- the certificate is accepted before the precommit is signed, so it releases earlier rounds
    have split : v'.history = v.history ++ [.certified block.index round block.hash] ++
        [.signed ballot] := by simp [history]
    have older {h r : Nat} {x : String} (locked : LockedAgainst
        (v.history ++ [.certified block.index round block.hash]) h r x) :
        LockedAgainst v.history h r x :=
      locked.of_concat.elim id fun ⟨_, absurd, _⟩ => by cases absurd
    obtain ⟨sameRound, agree⟩ := ok r before height current
    refine unbroken.sign (unbroken.kept.concat (by rintro _ ⟨⟩)) vote drivers split ?_
      (fun _ _ _ _ => older) fun _ => agree
    rintro ⟨old, isOpen, atHeight, earlier, other, unreleased⟩
    have released : round ≤ old.round := unreleased round (by simp)
    refine other (sameRound old ?_ atHeight (by omega))
    exact isOpen.of_concat.elim id fun absurd => by cases absurd.1
  | @registered id d provider isLeader driver stage record drivers history =>
    constructor
    · rw [history]
      exact unbroken.kept
    · intro j d' hd' live locked
      rw [history] at locked
      obtain ⟨d₀, hd₀, alive, block, round⟩ | ⟨leads, block, round⟩ := drivers j d' hd' live
      · rw [block, round] at locked
        exact unbroken.drivers j d₀ hd₀ alive locked
      · rw [block, round] at locked
        rw [leads] at stage
        exact ok d provider driver stage locked
  | @seeded _ id d phase ballot events cause driver live record drivers vote silent history =>
    rw [← append_assoc] at history
    refine unbroken.sign (unbroken.kept.silent silent) vote drivers history ?_
      (fun _ _ _ _ locked => locked.of_silent silent) ?_
    · exact fun locked => unbroken.drivers id d driver live (locked.of_silent silent)
    · intro isPrecommit
      obtain ⟨-, isPrevote⟩ | ⟨batches, rfl, -⟩ := cause
      · rw [isPrevote] at isPrecommit
        cases isPrecommit
      · exact ok d driver

lemma Fresh.unbroken (fresh : v.Fresh) : v.Unbroken := by
  constructor
  · intro before ballot after split
    rw [fresh.history] at split
    simp at split
  · intro id d hd
    rw [fresh.drivers id] at hd
    cases hd

/-- In a run where the record holds the locks, no vote is signed against one. -/
theorem locks_kept_along_runs {v₀ v : Validator B} (fresh : v₀.Fresh)
    (run : Reaches (Step X) RecordHoldsLocks v₀ v) : LocksKept v.history := by
  have unbroken : v.Unbroken := by
    refine run.invariant ?_ fresh.unbroken
    rintro v input v' unbroken ok rfl
    exact unbroken.step ok (handle_effect X v input)
  exact unbroken.kept

end Validator

/-- A certificate for the record's round locks its hash. -/
theorem Validator.handle_precommit {v : Validator B} {P : BftConsensusProvider B} {block : Block}
    {r : BftRound} {certificate : QuorumCertificate}
    (derived : deriveValidatorProvider X v.state = (v.state, some P))
    (record : v.state.bftRound = some r) (height : r.height = block.index)
    (accepted : P.verifyCertificate certificate block = .ok ()) :
    v.handle X (.precommit block r.round certificate) =
      { v with state := { v.state with bftRound := some { r with locked := some block.hash } } }.log
        [.certified block.index r.round block.hash,
          .signed (P.signVote v.ledger.chainId block.index r.round .precommit block.hash)] := by
  simp [handle, onPrecommit, handlePrecommit, record, height, derived, accepted]

/-- A candidate that fails the checks still takes the record to its height. -/
theorem Validator.handle_invalid_proposal {v : Validator B} {block : Block}
    (invalid : validCandidate X v.ledger v.state block = false) (round : Nat) :
    v.handle X (.proposal block round) = { v with state := { v.state with
      bftRound := some { takeRound v.state block.index with round := round } } }.log [] := by
  simp [handle, onProposal, handleProposal, invalid, log]

/-- The only validator after a proposal and a prevote certificate for it. -/
noncomputable def lockedSample (X : Externals) (c : QuorumCertificate) :
    Validator (Multisig.symbolic 48) :=
  ((sampleValidator X [1] 1).handle X (.proposal (sampleBlock X "a") 0)).handle X
    (.precommit (sampleBlock X "a") 0 c)

noncomputable def sampleVote (X : Externals) (round : Nat) (phase : VotePhase) (id : String) :
    BftVote :=
  (sampleProvider [1] 1).signVote (sealedGenesis X).hash 1 round phase (sampleBlock X id).hash

section Sample

variable {X : Externals} {c : QuorumCertificate}
  (accepted : (sampleProvider [1] 1).verifyCertificate c (sampleBlock X "a") = .ok ())

include accepted

lemma lockedSample_spec : SampleState X (sampleProvider [1] 1) (lockedSample X c) ∧
    (lockedSample X c).state.bftRound =
      some ⟨1, 0, some (sampleBlock X "a").hash, some (sampleBlock X "a")⟩ ∧
    (lockedSample X c).history = [.signed (sampleVote X 0 .prevote "a"),
      .certified 1 0 (sampleBlock X "a").hash] ++ [.signed (sampleVote X 0 .precommit "a")] := by
  have sample := sampleValidator_sample X [1] 1
  have first := sample.handle_proposal rfl "a" 0
  have sample' := sample.of_setRound first
  have second := handle_precommit (r := ⟨1, 0, none, some (sampleBlock X "a")⟩)
    sample'.derived (by rw [first]; rfl) rfl accepted
  refine ⟨sample'.of_setRound second, by rw [lockedSample, second]; rfl, ?_⟩
  rw [lockedSample, second, sample'.chainId, first]
  rfl

lemma lockedSample_against (injective : Function.Injective X.contentHash) :
    LockedAgainst (lockedSample X c).history 1 1 (sampleBlock X "b").hash := by
  have differ := sampleBlock_hash_ne injective (show "a" ≠ "b" by decide)
  obtain ⟨-, -, history⟩ := lockedSample_spec accepted
  refine ⟨sampleVote X 0 .precommit "a", ⟨_, [], history, rfl, by simp⟩, rfl, Nat.zero_le 1, differ, ?_⟩
  intro r certified
  simp only [history] at certified
  simp at certified
  exact absurd certified.2.symm differ

end Sample

/-- A proposal and the precommit it leads to, from a fresh state, and then another proposal, which
finds the lock: nothing more is signed. -/
theorem locks_kept_two_proposals : ∃ c,
    let v := (lockedSample (.plain 0) c).handle (.plain 0)
      (.proposal (sampleBlock (.plain 0) "b") 1)
    LockedAgainst v.history 1 1 (sampleBlock (.plain 0) "b").hash ∧
      v.votes = (lockedSample (.plain 0) c).votes ∧ LocksKept v.history := by
  obtain ⟨c, attested⟩ := exists_solo_attested 1 (sampleBlock (.plain 0) "a")
  have accepted := (BftConsensusProvider.verifyCertificate_iff _).mpr attested
  have injective := Externals.plain_contentHash_injective 0
  obtain ⟨-, record, history⟩ := lockedSample_spec accepted
  have differ := sampleBlock_hash_ne injective (show "a" ≠ "b" by decide)
  have refuses : ((lockedSample (.plain 0) c).handle (.plain 0)
      (.proposal (sampleBlock (.plain 0) "b") 1)).history = (lockedSample (.plain 0) c).history := by
    have found : takeRound (lockedSample (.plain 0) c).state (sampleBlock (.plain 0) "b").index = _ :=
      takeRound_of_record record rfl
    simp [Validator.handle, Validator.onProposal, handleProposal, found, differ]
  refine ⟨c, ?_, ?_, ?_⟩
  · rw [refuses]
    exact lockedSample_against accepted injective
  · simp only [Validator.votes, refuses]
  have first := (sampleValidator_sample (.plain 0) [1] 1).handle_proposal rfl "a" 0
  refine locks_kept_along_runs (X := .plain 0) (sampleValidator_fresh (.plain 0) [1] 1)
    ((((Reaches.refl _).tail (.proposal (sampleBlock (.plain 0) "a") 0) ?_ rfl).tail
      (.precommit (sampleBlock (.plain 0) "a") 0 c) ?_ rfl).tail
      (.proposal (sampleBlock (.plain 0) "b") 1) ?_ rfl)
  · rintro ⟨ballot, ⟨before, after, split, -⟩, -⟩
    simp [sampleValidator] at split
  · rw [first]
    refine fun r _ _ _ => ⟨fun ballot isOpen => ?_, fun id d driver => by cases driver⟩
    replace isOpen : OpenPrecommit ([] ++ [_]) ballot := isOpen
    cases isOpen.of_concat with
    | inl absurd =>
      obtain ⟨before, after, split, -⟩ := absurd
      simp at split
    | inr new =>
      obtain ⟨⟨⟩, phase⟩ := new
      cases phase
  · exact fun _ => ⟨_, _, record, rfl, rfl, differ⟩

/-- The validator precommits `a`, a malformed proposal for another height replaces its record, and
it then prevotes `b` at the height of its lock. -/
theorem lock_is_lost :
    (sampleValidator (.plain 0) [1] 1).Fresh ∧ ∃ v,
      Reaches (Validator.Step (.plain 0)) anyStep (sampleValidator (.plain 0) [1] 1) v ∧
      ¬LocksKept v.history := by
  obtain ⟨c, attested⟩ := exists_solo_attested 1 (sampleBlock (.plain 0) "a")
  have accepted := (BftConsensusProvider.verifyCertificate_iff _).mpr attested
  obtain ⟨sample, -, history⟩ := lockedSample_spec accepted
  let stray : Block := { sampleBlock (.plain 0) "c" with index := 7 }
  have invalid : validCandidate (.plain 0) (lockedSample (.plain 0) c).ledger
      (lockedSample (.plain 0) c).state stray = false := by
    rw [Bool.eq_false_iff, sample.ledger]
    intro valid
    obtain ⟨previous, ⟨⟩, chains⟩ := chainsTo_of_validCandidate valid
    exact absurd (Block.chainsTo_iff.mp chains).2.1 (by decide)
  have replaced := handle_invalid_proposal invalid 0
  have sample' := sample.of_setRound replaced
  have unlocked : (takeRound (Validator.handle (.plain 0) (lockedSample (.plain 0) c)
      (.proposal stray 0)).state 1).locked = none := by
    have height := takeRound_height (lockedSample (.plain 0) c).state stray.index
    rw [replaced, takeRound_of_other (r := { takeRound (lockedSample (.plain 0) c).state
      stray.index with round := 0 }) rfl (by rw [height]; decide)]
    rfl
  have last := sample'.handle_proposal unlocked "b" 1
  have differ := sampleBlock_hash_ne (Externals.plain_contentHash_injective 0)
    (show "a" ≠ "b" by decide)
  refine ⟨sampleValidator_fresh _ _ _, _,
    ((((Reaches.refl _).tail (.proposal (sampleBlock (.plain 0) "a") 0) trivial rfl).tail
      (.precommit (sampleBlock (.plain 0) "a") 0 c) trivial rfl).tail
      (.proposal stray 0) trivial rfl).tail
      (.proposal (sampleBlock (.plain 0) "b") 1) trivial rfl, ?_⟩
  intro kept
  refine kept _ (sampleVote (.plain 0) 1 .prevote "b") [] (congrArg Validator.history last) ?_
  have against := lockedSample_against accepted (Externals.plain_contentHash_injective 0)
  rw [← append_nil (lockedSample (.plain 0) c).history] at against
  rw [replaced]
  exact against

end GlassChain
