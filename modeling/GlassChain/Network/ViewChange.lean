import GlassChain.Network.Cluster

/-!
# Which rounds a node can lead

`run_vote_round` enters every call at round 0 and returns as soon as the node is not the proposer of
the round it is in. A driver therefore reaches round `r` only on a node that is the proposer of
every round up to `r`. The rotation gives consecutive rounds to different positions, so no other
validator ever takes over: a later round is led only by whoever led the first one.
-/

namespace GlassChain

open Library BftConsensusProvider

variable {B : Multisig} {X : Externals}

lemma proposerSlot_eq {n : Nat} (positive : 0 < n) (height round : Nat) :
    proposerSlot height round n = (height + round) % n := by
  unfold proposerSlot
  rw [Nat.max_eq_left positive, ← Nat.add_mod]

/-- A position comes round again after as many rounds as there are validators. -/
theorem proposerSlot_repeats {n round : Nat} (positive : 0 < n) (height : Nat) (late : n ≤ round) :
    proposerSlot height (round - n) n = proposerSlot height round n := by
  rw [proposerSlot_eq positive, proposerSlot_eq positive]
  have wrap : height + round = height + (round - n) + n := by omega
  rw [wrap, Nat.add_mod_right]

lemma proposerSlot_ne {n i j : Nat} (height : Nat) (before : i < j) (few : j < n) :
    proposerSlot height i n ≠ proposerSlot height j n := by
  have positive : 0 < n := by omega
  rw [proposerSlot_eq positive, proposerSlot_eq positive]
  intro same
  have divides : n ∣ j - i := by
    have := (Nat.modEq_iff_dvd' (by omega : height + i ≤ height + j)).mp same
    rwa [Nat.add_sub_add_left] at this
  have := Nat.le_of_dvd (by omega) divides
  omega

/-- Position `i` of `n` is the proposer of every round the driver left, and of the round it is in
once it found itself to be the leader. -/
def Driver.Leads (n i : Nat) (d : Driver B) : Prop :=
  (∀ round < d.round, proposerSlot d.block.index round n = i) ∧
    match d.stage with
    | .entering => True
    | .derived _ isLeader => isLeader = true → proposerSlot d.block.index d.round n = i
    | _ => proposerSlot d.block.index d.round n = i

lemma Driver.Leads.current {n i : Nat} {d : Driver B} (leads : d.Leads n i)
    (live : d.live = true) : proposerSlot d.block.index d.round n = i := by
  obtain ⟨-, now⟩ := leads
  unfold Driver.live at live
  split at now <;> simp_all

lemma Driver.Leads.progress {n i : Nat} {S : NodeState B} {input : Input B} {d d' : Driver B}
    (leads : d.Leads n i)
    (set : ∀ P, (deriveValidatorProvider X S).2 = some P →
      P.validatorCount = n ∧ P.localIndex = some i) (step : d.Progress X S input d') :
    d'.Leads n i := by
  cases step with
  | idle inbox => exact leads
  | derived found position =>
    obtain ⟨rfl, index⟩ := set _ found
    obtain rfl := Option.some.inj (position.symm.trans index)
    exact ⟨leads.1, fun isLeader => eq_of_beq isLeader⟩
  | registered stage =>
    obtain ⟨past, now⟩ := leads
    rw [stage] at now
    exact ⟨past, now rfl⟩
  | advanced live block round =>
    have now := leads.current live
    unfold Driver.Leads
    rw [block, round]
    refine ⟨leads.1, ?_⟩
    split
    · trivial
    · exact fun _ => now
    · exact now
  | retried live block round stage =>
    have now := leads.current live
    unfold Driver.Leads
    rw [block, round, stage]
    refine ⟨fun earlier before => ?_, trivial⟩
    obtain past | rfl := Nat.lt_succ_iff_lt_or_eq.mp before
    · exact leads.1 earlier past
    · exact now

namespace Validator

/-- The node finds the set of `P`, and itself at the position of `P`. -/
def UnderSet (X : Externals) (P : BftConsensusProvider B) (v : Validator B) (_ : Input B) : Prop :=
  ∀ Q, (deriveValidatorProvider X v.state).2 = some Q →
    Q.validators = P.validators ∧ Q.publicKey = P.publicKey

/-- The step broadcasts a `Proposal` for a height and round as the leader of the round. -/
def Broadcasts (v : Validator B) (input : Input B) (height round : Nat) : Prop :=
  ∃ id d P, input = .propose id ∧ v.drivers id = some d ∧ d.stage = .registered P ∧
    d.block.index = height ∧ d.round = round

/-- Some run of the node under one set broadcasts a `Proposal` for `height` and `round`. -/
def CanPropose (X : Externals) (P : BftConsensusProvider B) (height round : Nat) : Prop :=
  ∃ v₀ v : Validator B, ∃ input, v₀.Fresh ∧ Reaches (Step X) (UnderSet X P) v₀ v ∧
    v.Broadcasts input height round

variable {P : BftConsensusProvider B} {height round i : Nat}

/-- Whoever broadcasts in a round is the proposer of every round up to it. -/
theorem CanPropose.leads (position : P.localIndex = some i) (can : CanPropose X P height round) :
    ∀ earlier ≤ round, proposerSlot height earlier P.validatorCount = i := by
  obtain ⟨v₀, v, input, fresh, run, id, d, Q, -, driver, stage, rfl, rfl⟩ := can
  have leads : ∀ id d, v.drivers id = some d → d.Leads P.validatorCount i := by
    refine run.invariant (I := fun v => ∀ id d, v.drivers id = some d → d.Leads P.validatorCount i)
      ?_ ?_
    · rintro v input _ leads set rfl id d' hd'
      obtain ⟨block, rfl⟩ | ⟨d, hd, step⟩ := handle_progress X v input id d' hd'
      · exact ⟨fun earlier before => absurd before (Nat.not_lt_zero earlier), trivial⟩
      · refine (leads id d hd).progress (fun Q found => ?_) step
        obtain ⟨validators, key⟩ := set Q found
        refine ⟨by rw [validatorCount, validators]; rfl, ?_⟩
        rw [localIndex, indexOf, validators, key]
        exact position
    · intro id d hd
      rw [fresh.drivers] at hd
      cases hd
  have past := leads id d driver
  have now := past.current (by rw [Driver.live, stage])
  intro earlier before
  obtain less | rfl := Nat.lt_or_eq_of_le before
  · exact past.1 earlier less
  · exact now

def attached (X : Externals) (P : BftConsensusProvider B) : Validator B :=
  ⟨(freshPool X).ledger, ⟨⟨none, fun _ => none, ∅, none, ⟨[]⟩, none⟩, some P, none, none, ⟨∅⟩, [],
    none⟩, fun _ => none, 0, []⟩

lemma canPropose_first (position : P.localIndex = some (proposerSlot height 0 P.validatorCount)) :
    CanPropose X P height 0 := by
  let block : Block := ⟨height, 0, [], [], "", 0, "", none⟩
  have derived : deriveValidatorProvider X (attached X P).state =
      ((attached X P).state, some P) := deriveValidatorProvider_static rfl rfl rfl
  have under (v : Validator B) (input : Input B) (same : v.state = (attached X P).state) :
      UnderSet X P v input := by
    intro Q found
    rw [same, derived] at found
    cases found
    exact ⟨rfl, rfl⟩
  let v₁ := (attached X P).handle X (.drive block)
  let entered : Driver B := .new X block
  have second : v₁.handle X (.derive 0) = v₁.setDriver 0
      (.ok { entered with stage := .derived P true }) := by
    have started : v₁.drivers 0 = some entered := rfl
    have found : deriveValidatorProvider X v₁.state = (v₁.state, some P) := derived
    have leader : proposerIndex P entered.block.index entered.round =
        proposerSlot height 0 P.validatorCount := rfl
    simp only [handle, onDriver, started, onDerive, entered, Driver.new, Driver.derive, found,
      position]
    simp only [entered, Driver.new] at leader
    rw [leader, beq_self_eq_true]
  refine ⟨attached X P, (v₁.handle X (.derive 0)).handle X (.register 0), .propose 0,
    ⟨rfl, fun _ => rfl, rfl⟩, ?_, 0, { entered with stage := .registered P }, P, rfl, ?_, rfl, rfl,
    rfl⟩
  · have driven : Reaches (Step X) (UnderSet X P) (attached X P) v₁ :=
      (Reaches.refl _).tail (.drive block) (under _ _ rfl) rfl
    have found := driven.tail (.derive 0) (under v₁ _ rfl) rfl
    refine found.tail (.register 0) (under _ _ ?_) rfl
    rw [second]
    rfl
  · rw [second]
    simp [handle, onDriver, setDriver, onRegister, Driver.register, Except.toOption, entered,
      Driver.new]

/-- With several validators the only proposals are those of the first round, by its proposer. -/
theorem canPropose_iff (several : 2 ≤ P.validatorCount) (position : P.localIndex = some i) :
    CanPropose X P height round ↔ round = 0 ∧ proposerSlot height 0 P.validatorCount = i := by
  constructor
  · intro can
    have first := can.leads position 0 (Nat.zero_le round)
    refine ⟨?_, first⟩
    by_contra later
    have second := can.leads position 1 (by omega)
    exact proposerSlot_ne height Nat.zero_lt_one (by omega) (first.trans second.symm)
  · rintro ⟨rfl, rfl⟩
    exact canPropose_first position

/-- The validator whose turn a later round is takes it over in some run, unless it led an earlier
round, if and only if there are no more validators than rounds before it: then everyone did lead an
earlier round. -/
theorem view_change_driven_iff (several : 2 ≤ P.validatorCount) (later : 1 ≤ round)
    (position : P.localIndex = some (proposerSlot height round P.validatorCount)) :
    ((∀ earlier < round, proposerSlot height earlier P.validatorCount ≠
        proposerSlot height round P.validatorCount) → CanPropose X P height round) ↔
      P.validatorCount ≤ round := by
  constructor
  · intro driven
    by_contra few
    have can := driven fun earlier before => proposerSlot_ne height before (by omega)
    obtain ⟨rfl, -⟩ := (canPropose_iff several position).mp can
    omega
  · intro late fresh
    have again := proposerSlot_repeats (by omega) height late
    exact absurd again (fresh _ (by omega))

end Validator

/-- Two validators: in the second round only a node that led the first one would propose, and from
the third on every proposer has led before. -/
theorem view_change_driven_two :
    (((∀ earlier < 1, proposerSlot 2 earlier 2 ≠ proposerSlot 2 1 2) →
      Validator.CanPropose (.plain 0) (sampleProvider [1, 2] 2) 2 1) ↔ 2 ≤ 1) ∧
    (((∀ earlier < 3, proposerSlot 2 earlier 2 ≠ proposerSlot 2 3 2) →
      Validator.CanPropose (.plain 0) (sampleProvider [1, 2] 2) 2 3) ↔ 2 ≤ 3) := by
  have count : (sampleProvider [1, 2] 2).validatorCount = 2 := by
    simp [validatorCount, sampleProvider, sampleValidators]
  have driven (round : Nat) (later : 1 ≤ round) (turn : proposerSlot 2 round 2 = 1) := by
    have position : (sampleProvider [1, 2] 2).localIndex =
        some (proposerSlot 2 round (sampleProvider [1, 2] 2).validatorCount) := by
      rw [localIndex, sampleProvider_indexOf, count, turn]
      decide
    exact Validator.view_change_driven_iff (X := .plain 0) (by rw [count]) later position
  rw [count] at driven
  exact ⟨driven 1 le_rfl (by decide), driven 3 (by decide) (by decide)⟩

/-- Of two validators with different keys, the one whose turn is round 1 of height 2 is not the
proposer of round 0, and no run makes it propose. -/
theorem view_change_not_driven :
    (sampleProvider [1, 2] 2).keys.Nodup ∧ (sampleProvider [1, 2] 2).validatorCount = 2 ∧
      (sampleProvider [1, 2] 2).localIndex = some (proposerSlot 2 1 2) ∧
      proposerSlot 2 0 2 ≠ proposerSlot 2 1 2 ∧
      ¬Validator.CanPropose (.plain 0) (sampleProvider [1, 2] 2) 2 1 := by
  have count : (sampleProvider [1, 2] 2).validatorCount = 2 := by
    simp [validatorCount, sampleProvider, sampleValidators]
  have position : (sampleProvider [1, 2] 2).localIndex = some (proposerSlot 2 1 2) := by
    rw [localIndex, sampleProvider_indexOf]
    decide
  refine ⟨sampleProvider_distinct (by decide) 2, count, position, by decide, fun can => ?_⟩
  obtain ⟨first, -⟩ := (Validator.canPropose_iff (by rw [count]) position).mp can
  cases first

end GlassChain
