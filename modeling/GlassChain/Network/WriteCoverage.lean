import GlassChain.Core.Authorization
import GlassChain.Network.Admission

/-!
# Are committed writes endorsed?

On the paths that cannot attribute writes, a node asks that every write lies inside some carrier,
and separately that the carriers of every transaction satisfy the policies of their targets. The
second check skips canonical records, whose carriers only hold signers for the operation default,
while the first one counts their carriers too.
-/

namespace GlassChain

open Library List PolicyExpression CapabilityHistory PrincipalProvider CommitState PolicyHistory
open MiningView (capabilityActive)

def PersistentWrite.collection (w : PersistentWrite) : Option String :=
  match w.visibility with
  | .pub => none
  | .pdc name => some name

def PolicyHistory.layersFor (h : PolicyHistory) (w : PersistentWrite) : List PolicyExpression :=
  (h.policiesFor w.channel w.contract).applicable ⟨w.channel, w.contract, [w.key], w.collection⟩

def PolicyHistory.layersOf (h : PolicyHistory) (target : ScopedTarget) : List PolicyExpression :=
  (h.policiesFor target.channel target.contract).applicable target

/-- Whoever satisfies the first layers satisfies the second. -/
def Entails (first second : List PolicyExpression) : Prop :=
  ∀ P : Finset Principal, (∀ policy ∈ first, policy.evaluate P = true) →
    ∀ policy ∈ second, policy.evaluate P = true

/-- Some carrier covers the write, and its verified signers satisfy every layer of the write. -/
def Endorsed (X : Externals) (V : PrincipalProvider) (effective : PolicyHistory) (block : Block)
    (w : PersistentWrite) : Prop :=
  ∃ tx ∈ block.transactions, ∃ e ∈ tx.endorsements, e.covers w = true ∧
    ∀ policy ∈ effective.layersFor w,
      policy.evaluate (V.principals (carrierRequest X tx e) block.index) = true

section Layers

variable {h : PolicyHistory} {w : PersistentWrite} {e : TransactionEndorsement}

lemma covers_iff : e.covers w = true ↔ w.channel = e.target.channel ∧
    w.contract = e.target.contract ∧ w.key ∈ e.target.keys ∧
      w.collection = e.target.collection := by
  unfold TransactionEndorsement.covers PersistentWrite.collection
  cases w.visibility <;> cases e.target.collection <;> simp [and_assoc]

/-- A covering carrier is evaluated under every layer of the write. -/
theorem layersFor_subset (covers : e.covers w = true) : h.layersFor w ⊆ h.layersOf e.target := by
  obtain ⟨channel, contract, key, collection⟩ := covers_iff.mp covers
  intro policy layer
  simp only [layersFor, layersOf, ScopedPolicies.applicable, channel,
    contract, collection, mem_append, mem_filterMap] at layer ⊢
  obtain scope | ⟨k, single, found⟩ := layer
  · exact .inl scope
  · rw [mem_singleton.mp single] at found
    exact .inr ⟨w.key, key, found⟩

lemma Entails.of_covers (covers : e.covers w = true) :
    Entails (h.layersOf e.target) (h.layersFor w) :=
  fun _ all policy layer => all policy (layersFor_subset covers layer)

lemma channelDefault_mem_layersFor (h : PolicyHistory) (w : PersistentWrite) :
    (h.policiesFor w.channel w.contract).channelDefault ∈ h.layersFor w := by
  simp [layersFor, ScopedPolicies.applicable]

end Layers

/-- The two checks of a block, under the policies before it. -/
structure BlockPasses (X : Externals) (provider : EndorsementProvider) (policies : PolicyHistory)
    (block : Block) : Prop where
  transactions : ∀ tx ∈ block.transactions,
    evaluateTransactionEndorsements X provider policies tx [] block.index = .ok ()
  covered : ∀ w ∈ block.writeSet, ∃ tx ∈ block.transactions, ∃ e ∈ tx.endorsements,
    e.covers w = true

lemma checkAggregateCoverage_eq_ok {block : Block} :
    checkAggregateCoverage block = .ok () ↔ ∀ w ∈ block.writeSet, ∃ tx ∈ block.transactions,
      ∃ e ∈ tx.endorsements, e.covers w = true := by
  have none : (∀ w ∈ block.writeSet, ∃ tx ∈ block.transactions, ∃ e ∈ tx.endorsements,
      e.covers w = true) ↔ (block.writeSet.find? fun w =>
        !(block.transactions.any fun tx => tx.endorsements.any fun e => e.covers w)) = .none := by
    simp
  rw [none]
  unfold checkAggregateCoverage
  split <;> simp_all

variable {X : Externals} {V V₀ : PrincipalProvider} {policies effective : PolicyHistory}
  {block : Block} {w : PersistentWrite}

/-- Another provider passes a block too if it satisfies the evaluated carriers and answers the
operation defaults alike. -/
theorem BlockPasses.other (passes : BlockPasses X V₀.evaluate policies block)
    (carriers : ∀ tx ∈ block.transactions, tx.kind.isRecord = false → ∀ e ∈ tx.endorsements,
      ∃ P, V.verify (carrierRequest X tx e) block.index = .ok P ∧
        ∀ policy ∈ policies.layersOf e.target, policy.evaluate P = true)
    (defaults : ∀ payload signers, V.verify ⟨⟨"", "", [], none⟩, payload, signers⟩ block.index =
      V₀.verify ⟨⟨"", "", [], none⟩, payload, signers⟩ block.index) :
    BlockPasses X V.evaluate policies block := by
  refine ⟨fun tx member => ?_, passes.covered⟩
  obtain ⟨writes, carried, evaluated, operation⟩ :=
    evaluateTransactionEndorsements_eq_ok.mp (passes.transactions tx member)
  refine evaluateTransactionEndorsements_eq_ok.mpr ⟨writes, carried, fun kind e carrier => ?_, ?_⟩
  · obtain ⟨P, verified, holds⟩ := carriers tx member kind e carrier
    obtain ⟨_, -, valid⟩ := evaluateCarrier_principals.mp (evaluated kind e carrier)
    exact evaluateCarrier_principals.mpr
      ⟨P, verified, fun policy layer => ⟨(valid policy layer).1, holds policy layer⟩⟩
  · have same (policy : PolicyExpression) (payload : Bytes) (signers : List EndorserIdentity) :
        V.evaluate policy ⟨⟨"", "", [], none⟩, payload, signers⟩ block.index =
          V₀.evaluate policy ⟨⟨"", "", [], none⟩, payload, signers⟩ block.index := by
      simp only [PrincipalProvider.evaluate, defaults]
    unfold evaluateDefault at operation ⊢
    simpa only [same] using operation

/-- A covering carrier that is evaluated endorses, if the layers it is evaluated under entail those
of the write. -/
theorem BlockPasses.endorsed (passes : BlockPasses X V.evaluate policies block) {tx : Transaction}
    (member : tx ∈ block.transactions) (kind : tx.kind.isRecord = false)
    {e : TransactionEndorsement} (carrier : e ∈ tx.endorsements) (covers : e.covers w = true)
    (entails : Entails (policies.layersOf e.target) (effective.layersFor w)) :
    Endorsed X V effective block w := by
  obtain ⟨-, -, evaluated, -⟩ :=
    evaluateTransactionEndorsements_eq_ok.mp (passes.transactions tx member)
  obtain ⟨P, verified, holds⟩ := evaluateCarrier_principals.mp (evaluated kind e carrier)
  refine ⟨tx, member, e, carrier, covers, ?_⟩
  rw [principals_eq verified]
  exact entails P fun policy layer => (holds policy layer).2

/-- A provider that, at one height, verifies only the given principals for carriers of a write. -/
def PrincipalProvider.restrict (V₀ : PrincipalProvider) (height : Nat) (w : PersistentWrite)
    (P : ScopedTarget → Finset Principal) : PrincipalProvider where
  verify request h :=
    if h = height ∧ (⟨request.target, []⟩ : TransactionEndorsement).covers w = true
      then .ok (P request.target) else V₀.verify request h

variable {P : ScopedTarget → Finset Principal}

lemma restrict_covers {tx : Transaction} {e : TransactionEndorsement} (covers : e.covers w = true) :
    (V₀.restrict block.index w P).verify (carrierRequest X tx e) block.index =
      .ok (P e.target) :=
  if_pos ⟨rfl, covers⟩

lemma restrict_other {tx : Transaction} {e : TransactionEndorsement} {h : Nat}
    (other : ¬(h = block.index ∧ e.covers w = true)) :
    (V₀.restrict block.index w P).verify (carrierRequest X tx e) h =
      V₀.verify (carrierRequest X tx e) h :=
  if_neg other

lemma restrict_default (h : Nat) (payload : Bytes) (signers : List EndorserIdentity) :
    (V₀.restrict block.index w P).verify ⟨⟨"", "", [], none⟩, payload, signers⟩ h =
      V₀.verify ⟨⟨"", "", [], none⟩, payload, signers⟩ h := by
  refine if_neg ?_
  rintro ⟨-, covers⟩
  obtain ⟨-, -, key, -⟩ := covers_iff.mp covers
  exact absurd key not_mem_nil

/-- Under such a provider a write is endorsed only by the given principals. -/
theorem not_endorsed_restrict (V₀ : PrincipalProvider) (P : ScopedTarget → Finset Principal)
    (fails : ∀ target, ∃ policy ∈ effective.layersFor w, policy.evaluate (P target) = false) :
    ¬Endorsed X (V₀.restrict block.index w P) effective block w := by
  rintro ⟨tx, -, e, -, covers, holds⟩
  obtain ⟨policy, layer, refused⟩ := fails e.target
  have satisfied := holds policy layer
  rw [principals_eq (restrict_covers covers), refused] at satisfied
  cases satisfied

variable (X)

/-- `enforce_block_endorsements` on a peer's block, with a provider attached. -/
def PeerAccepts (S : CommitState) (chain : List Block) (block : Block) (V : PrincipalProvider) :
    Prop :=
  ({ S with endorsement := some V.evaluate }.enforceBlockEndorsements X chain block []).2 = .ok ()

def gateSet (S : CommitState) (chain : List Block) (height : Nat) :
    Except CoreError CapabilitySet :=
  (S.capabilityEffectiveSet X chain height).2

lemma capabilityEffectiveSet_frame (S : CommitState) (chain : List Block) (height : Nat)
    (endorsement : Option EndorsementProvider) :
    ∃ history, { S with endorsement := endorsement }.capabilityEffectiveSet X chain height =
      ({ S with endorsement := endorsement, capabilityHistory := history },
        gateSet X S chain height) := by
  obtain ⟨executor, contracts, world, _, policies, cached⟩ := S
  cases cached with
  | some history => exact ⟨some history, rfl⟩
  | none =>
    simp only [gateSet, capabilityEffectiveSet]
    cases CapabilityHistory.buildFromBlocks X chain with
    | error e => exact ⟨none, rfl⟩
    | ok history => exact ⟨some history, rfl⟩

variable {X}

variable {S : CommitState}

lemma evaluateBlockEndorsements_eq_ok {provider : EndorsementProvider} :
    S.evaluateBlockEndorsements X provider block [] = .ok () ↔
      (S.policies.validateBlock block).2 = .ok () ∧ BlockPasses X provider S.policies block := by
  unfold evaluateBlockEndorsements
  rw [seq_eq_ok, forM_eq_forM, seq_eq_ok, forM_eq_ok, isEmpty_nil, if_pos rfl,
    checkAggregateCoverage_eq_ok]
  refine and_congr_right' ⟨?_, ?_⟩
  · rintro ⟨transactions, covered⟩
    refine ⟨fun tx member => ?_, covered⟩
    obtain ⟨i, small, rfl⟩ := mem_iff_getElem.mp member
    exact transactions (block.transactions[i], i) (mk_mem_zipIdx_iff_getElem?.mpr (by simp))
  · rintro ⟨transactions, covered⟩
    refine ⟨fun ⟨tx, i⟩ member => ?_, covered⟩
    exact transactions tx (fst_mem_of_mem_zipIdx member)

variable {chain : List Block}

/-- The gate passes while the capability is inactive, and otherwise evaluates the block. -/
theorem enforceBlockEndorsements_eq_ok {provider : EndorsementProvider}
    {writes : List (List PersistentWrite)} :
    ({ S with endorsement := some provider }.enforceBlockEndorsements X chain block writes).2 =
        .ok () ↔ ∃ set, gateSet X S chain block.index = .ok set ∧
      (set.isActive endorsementCapabilityId = true →
        S.evaluateBlockEndorsements X provider block writes = .ok ()) := by
  obtain ⟨history, found⟩ := capabilityEffectiveSet_frame X S chain block.index (some provider)
  unfold enforceBlockEndorsements
  simp only [found]
  cases gateSet X S chain block.index with
  | error e => simp
  | ok set =>
    by_cases active : set.isActive endorsementCapabilityId = true
    · simp [active, evaluateBlockEndorsements]
    · simp [active]

lemma peerAccepts_iff :
    PeerAccepts X S chain block V ↔ ∃ set, gateSet X S chain block.index = .ok set ∧
      (set.isActive endorsementCapabilityId = true →
        (S.policies.validateBlock block).2 = .ok () ∧ BlockPasses X V.evaluate S.policies block) := by
  rw [PeerAccepts, enforceBlockEndorsements_eq_ok]
  simp only [evaluateBlockEndorsements_eq_ok]

def CoveredOffRecord (block : Block) (w : PersistentWrite) (condition : ScopedTarget → Prop) : Prop :=
  ∃ tx ∈ block.transactions, tx.kind.isRecord = false ∧ ∃ e ∈ tx.endorsements,
    e.covers w = true ∧ condition e.target

open Classical in
/-- Principals that satisfy the first layers without the second, if there are any. -/
noncomputable def separating (first second : List PolicyExpression) : Finset Principal :=
  if apart : ∃ P : Finset Principal, (∀ policy ∈ first, policy.evaluate P = true) ∧
      ∃ policy ∈ second, policy.evaluate P = false then apart.choose else ∅

lemma separating_fails (first : List PolicyExpression) (h : PolicyHistory) (w : PersistentWrite) :
    ∃ policy ∈ h.layersFor w, policy.evaluate (separating first (h.layersFor w)) = false := by
  unfold separating
  split
  · rename_i apart
    exact apart.choose_spec.2
  · exact ⟨_, channelDefault_mem_layersFor h w, evaluate_empty _⟩

lemma separating_holds {first second : List PolicyExpression} (apart : ¬Entails first second) :
    ∀ policy ∈ first, policy.evaluate (separating first second) = true := by
  have some : ∃ P : Finset Principal, (∀ policy ∈ first, policy.evaluate P = true) ∧
      ∃ policy ∈ second, policy.evaluate P = false := by
    simpa [Entails] using apart
  rw [separating, dif_pos some]
  exact some.choose_spec.1

/-- On a peer's block: the writes are endorsed under the effective policies, whatever the provider,
exactly when the gate is open and every write has an evaluated carrier whose layers, under the
policies the node holds, entail those of the write. -/
theorem peer_writes_endorsed_iff (accepted : PeerAccepts X S chain block V₀)
    (effective : PolicyHistory) :
    (∀ V, PeerAccepts X S chain block V → ∀ w ∈ block.writeSet, Endorsed X V effective block w) ↔
      ∀ w ∈ block.writeSet, capabilityActive X S chain block.index endorsementCapabilityId = true ∧
        CoveredOffRecord block w fun target =>
          Entails (S.policies.layersOf target) (effective.layersFor w) := by
  obtain ⟨set, found, passed⟩ := peerAccepts_iff.mp accepted
  have gate : capabilityActive X S chain block.index endorsementCapabilityId =
      set.isActive endorsementCapabilityId := by
    have effective : (S.capabilityEffectiveSet X chain block.index).2 = .ok set := found
    simp only [capabilityActive, effective]
  constructor
  · intro endorsed w written
    have active : set.isActive endorsementCapabilityId = true := by
      by_contra inactive
      have open_ (V : PrincipalProvider) : PeerAccepts X S chain block V :=
        peerAccepts_iff.mpr ⟨set, found, fun active => absurd active inactive⟩
      exact not_endorsed_restrict V₀ (fun _ => ∅)
        (fun _ => ⟨_, channelDefault_mem_layersFor effective w, evaluate_empty _⟩)
        (endorsed _ (open_ _) w written)
    refine ⟨gate.trans active, ?_⟩
    by_contra uncovered
    obtain ⟨valid, passes⟩ := passed active
    let P (target : ScopedTarget) := separating (S.policies.layersOf target) (effective.layersFor w)
    refine not_endorsed_restrict V₀ P (fun target => separating_fails _ effective w)
      (endorsed _ (peerAccepts_iff.mpr ⟨set, found, fun _ => ⟨valid, ?_⟩⟩) w written)
    refine passes.other (fun tx member kind e carrier => ?_) fun payload signers =>
      restrict_default block.index payload signers
    by_cases covers : e.covers w = true
    · refine ⟨P e.target, restrict_covers covers, separating_holds fun entails => ?_⟩
      exact uncovered ⟨tx, member, kind, e, carrier, covers, entails⟩
    · obtain ⟨-, -, evaluated, -⟩ :=
        evaluateTransactionEndorsements_eq_ok.mp (passes.transactions tx member)
      obtain ⟨Q, verified, holds⟩ := evaluateCarrier_principals.mp (evaluated kind e carrier)
      refine ⟨Q, ?_, fun policy layer => (holds policy layer).2⟩
      rw [restrict_other (by simp [covers]), verified]
  · intro condition V accepted w written
    obtain ⟨active, tx, member, kind, e, carrier, covers, entails⟩ := condition w written
    obtain ⟨set', found', passed'⟩ := peerAccepts_iff.mp accepted
    obtain rfl : set = set' := Except.ok.inj (found.symm.trans found')
    exact (passed' (gate.symm.trans active)).2.endorsed member kind carrier covers entails

def replayNext (X : Externals) (replay : CapabilityHistory × PolicyHistory) (block : Block) :
    CapabilityHistory × PolicyHistory :=
  ((replay.1.validateBlock X block).1, (replay.2.validateBlock block).1)

def replayed (X : Externals) (blocks : List Block) : CapabilityHistory × PolicyHistory :=
  blocks.foldl (replayNext X) (⟨[]⟩, ⟨[]⟩)

def activeFor (X : Externals) (replay : CapabilityHistory × PolicyHistory) (block : Block) : Bool :=
  ((replay.1.validateBlock X block).1.effectiveSet X block.index).isActive endorsementCapabilityId

/-- One block of `enforce_chain_endorsements`. -/
structure StepPasses (X : Externals) (V : PrincipalProvider)
    (replay : CapabilityHistory × PolicyHistory) (block : Block) : Prop where
  capability : (replay.1.validateBlock X block).2 = .ok ()
  endorsement : activeFor X replay block = true → BlockPasses X V.evaluate replay.2 block
  policy : (replay.2.validateBlock block).2 = .ok ()

/-- For any provider, what one block of the replay checks, and where it leads. -/
theorem enforceChainStep_iff (X : Externals) (provider : EndorsementProvider)
    (replay : CapabilityHistory × PolicyHistory) (block : Block)
    (t : CapabilityHistory × PolicyHistory) :
    enforceChainStep X provider replay block = .ok t ↔
      ((replay.1.validateBlock X block).2 = .ok () ∧
        (activeFor X replay block = true → BlockPasses X provider replay.2 block) ∧
        (replay.2.validateBlock block).2 = .ok ()) ∧ t = replayNext X replay block := by
  have last : (do
      (replay.2.validateBlock block).2
      pure ((replay.1.validateBlock X block).1, (replay.2.validateBlock block).1)) = Except.ok t ↔
        (replay.2.validateBlock block).2 = .ok () ∧ t = replayNext X replay block := by
    rw [seq_eq_ok, eq_comm (a := t)]
    simp only [pure, Except.pure, Except.ok.injEq, replayNext]
  unfold enforceChainStep
  rw [seq_eq_ok]
  by_cases active : activeFor X replay block = true
  · have gate := active
    unfold activeFor at gate
    rw [if_pos gate, seq_eq_ok, seq_eq_ok, last, forM_eq_forM, forM_eq_ok,
      checkAggregateCoverage_eq_ok]
    constructor
    · rintro ⟨capability, transactions, covered, policy, moved⟩
      exact ⟨⟨capability, fun _ => ⟨transactions, covered⟩, policy⟩, moved⟩
    · rintro ⟨⟨capability, passes, policy⟩, moved⟩
      obtain ⟨transactions, covered⟩ := passes active
      exact ⟨capability, transactions, covered, policy, moved⟩
  · have gate := active
    unfold activeFor at gate
    rw [if_neg gate, last]
    constructor
    · rintro ⟨capability, policy, moved⟩
      exact ⟨⟨capability, fun now => absurd now active, policy⟩, moved⟩
    · rintro ⟨⟨capability, -, policy⟩, moved⟩
      exact ⟨capability, policy, moved⟩

lemma enforceChainStep_eq_ok (X : Externals) (V : PrincipalProvider)
    (replay : CapabilityHistory × PolicyHistory) (block : Block)
    (t : CapabilityHistory × PolicyHistory) :
    enforceChainStep X V.evaluate replay block = .ok t ↔
      StepPasses X V replay block ∧ t = replayNext X replay block := by
  rw [enforceChainStep_iff]
  refine and_congr_left' ⟨?_, ?_⟩
  · rintro ⟨capability, endorsement, policy⟩
    exact ⟨capability, endorsement, policy⟩
  · intro passes
    exact ⟨passes.capability, passes.endorsement, passes.policy⟩

/-- A chain passes if every block does, on the replay of those before it. -/
theorem enforceChainEndorsements_eq_ok {candidate : List Block} :
    enforceChainEndorsements X (some V.evaluate) candidate = .ok () ↔
      ∀ before block after, candidate = before ++ block :: after →
        StepPasses X V (replayed X before) block := by
  have run (t : CapabilityHistory × PolicyHistory) :=
    foldlM_eq_ok_iff (enforceChainStep_eq_ok X V) (l := candidate) (s := (⟨[]⟩, ⟨[]⟩)) (t := t)
  simp only [enforceChainEndorsements, bind_eq_ok, run, pure, Except.pure, and_true,
    exists_eq_right]
  exact Iff.rfl

/-- On a chain: whatever the provider, the writes of every block are endorsed under the policies
replayed before it, exactly when each has a carrier on a transaction that is no record. -/
theorem sync_writes_endorsed_iff {candidate : List Block}
    (distinct : (candidate.map Block.index).Nodup)
    (accepted : enforceChainEndorsements X (some V₀.evaluate) candidate = .ok ()) :
    (∀ V : PrincipalProvider, enforceChainEndorsements X (some V.evaluate) candidate = .ok () →
      ∀ before block after, candidate = before ++ block :: after →
        activeFor X (replayed X before) block = true → ∀ w ∈ block.writeSet,
          Endorsed X V (replayed X before).2 block w) ↔
      ∀ before block after, candidate = before ++ block :: after →
        activeFor X (replayed X before) block = true → ∀ w ∈ block.writeSet,
          CoveredOffRecord block w fun _ => True := by
  rw [enforceChainEndorsements_eq_ok] at accepted
  constructor
  · intro endorsed before block after split active w written
    by_contra uncovered
    refine not_endorsed_restrict V₀ (fun _ => ∅)
      (fun _ => ⟨_, channelDefault_mem_layersFor _ w, evaluate_empty _⟩)
      (endorsed _ (enforceChainEndorsements_eq_ok.mpr ?_) before block after split active w written)
    intro before' block' after' split'
    have passes := accepted before' block' after' split'
    refine ⟨passes.capability, fun active' => ?_, passes.policy⟩
    refine (passes.endorsement active').other (fun tx member kind e carrier => ?_)
      fun payload signers => restrict_default block'.index payload signers
    -- only carriers of this block at its height are answered differently, and none is evaluated
    have other : ¬(block'.index = block.index ∧ e.covers w = true) := by
      rintro ⟨height, covers⟩
      have mine : block ∈ candidate := by simp [split]
      have theirs : block' ∈ candidate := by simp [split']
      obtain rfl := inj_on_of_nodup_map distinct theirs mine height
      exact uncovered ⟨tx, member, kind, e, carrier, covers, trivial⟩
    obtain ⟨-, -, evaluated, -⟩ := evaluateTransactionEndorsements_eq_ok.mp
      ((passes.endorsement active').transactions tx member)
    obtain ⟨Q, verified, holds⟩ := evaluateCarrier_principals.mp (evaluated kind e carrier)
    refine ⟨Q, ?_, fun policy layer => (holds policy layer).2⟩
    rw [restrict_other other, verified]
  · intro condition V accepted before block after split active w written
    obtain ⟨tx, member, kind, e, carrier, covers, -⟩ :=
      condition before block after split active w written
    exact ((enforceChainEndorsements_eq_ok.mp accepted before block after split).endorsement
      active).endorsed member kind carrier covers (Entails.of_covers covers)

variable (X)

/-- Both paths, for a peer's block with the policies its chain replays to. -/
theorem writes_endorsed_iff :
    (∀ (S : CommitState) (chain : List Block) (block : Block) (V₀ : PrincipalProvider),
      PeerAccepts X S chain block V₀ →
      ((∀ V, PeerAccepts X S chain block V → activeFor X (replayed X chain) block = true →
          ∀ w ∈ block.writeSet, Endorsed X V (replayed X chain).2 block w) ↔
        (activeFor X (replayed X chain) block = true → ∀ w ∈ block.writeSet,
          capabilityActive X S chain block.index endorsementCapabilityId = true ∧
            CoveredOffRecord block w fun target =>
              Entails (S.policies.layersOf target) ((replayed X chain).2.layersFor w)))) ∧
    (∀ (candidate : List Block) (V₀ : PrincipalProvider), (candidate.map Block.index).Nodup →
      enforceChainEndorsements X (some V₀.evaluate) candidate = .ok () →
      ((∀ V : PrincipalProvider, enforceChainEndorsements X (some V.evaluate) candidate = .ok () →
          ∀ before block after, candidate = before ++ block :: after →
            activeFor X (replayed X before) block = true → ∀ w ∈ block.writeSet,
              Endorsed X V (replayed X before).2 block w) ↔
        ∀ before block after, candidate = before ++ block :: after →
          activeFor X (replayed X before) block = true → ∀ w ∈ block.writeSet,
            CoveredOffRecord block w fun _ => True)) := by
  refine ⟨fun S chain block V₀ accepted => ?_, fun candidate V₀ distinct accepted =>
    sync_writes_endorsed_iff distinct accepted⟩
  have iff := peer_writes_endorsed_iff accepted (replayed X chain).2
  constructor
  · intro endorsed active
    exact iff.mp fun V accepted => endorsed V accepted active
  · intro condition V accepted active
    exact iff.mpr (condition active) V accepted

def unsignedWrite : PersistentWrite := ⟨"supply", "inventory", "sku", .set [1], .pub⟩

/-- A record of a family without an operation default, with a carrier that covers the write and
holds no signature. -/
def coveringRecord : Transaction :=
  ⟨"record", 0, .canonicalRecord ⟨"identity", "party_identity", 1, none, 0, "farm",
      [⟨"farm", [1], .ed25519⟩], none, [],
      [("legal_name", .string "Farm"), ("org_id", .string "farm")]⟩,
    [⟨⟨"supply", "inventory", ["sku"], none⟩, []⟩]⟩

def endorsingChain : List Block :=
  [sealedGenesis X, activating X endorsementCapabilityId]

def recordBlock : Block :=
  Block.withWriteSet X 0 2 [coveringRecord] (activating X endorsementCapabilityId).hash
    [unsignedWrite]

/-- The same write under the carrier of an inventory update. -/
def inventoryBlock : Block :=
  Block.withWriteSet X 0 2 [⟨"stock", 0, .inventoryUpdate ⟨"sku", "farm", 1, ""⟩,
    [⟨⟨"supply", "inventory", ["sku"], none⟩, []⟩]⟩] (activating X endorsementCapabilityId).hash
    [unsignedWrite]

def endorsingState : CommitState :=
  ⟨none, fun _ => none, ∅, none, ⟨[]⟩, some ⟨[sampleActivation X endorsementCapabilityId]⟩⟩

lemma recordBlock_passes (V : PrincipalProvider) (policies : PolicyHistory) :
    BlockPasses X V.evaluate policies (recordBlock X) := by
  refine ⟨fun tx member => ?_, fun w written => ?_⟩
  · rw [mem_singleton.mp member]
    refine evaluateTransactionEndorsements_eq_ok.mpr ⟨by simp, ?_, ?_, rfl⟩
    · intro update
      cases update
    · intro noRecord
      cases noRecord
  · rw [mem_singleton.mp written]
    exact ⟨coveringRecord, mem_singleton_self _, _, mem_singleton_self _, by decide⟩

lemma recordBlock_peerAccepts (V : PrincipalProvider) :
    PeerAccepts X (endorsingState X) (endorsingChain X) (recordBlock X) V :=
  peerAccepts_iff.mpr ⟨_, rfl, fun _ => ⟨rfl, recordBlock_passes X V _⟩⟩

/-- Before height 2 the capability is not active. -/
theorem endorsement_inactive (activations : List CapabilityActivation) (height : Nat)
    (later : ∀ a ∈ activations, height < a.activationHeight) :
    ((⟨activations⟩ : CapabilityHistory).effectiveSet X height).isActive endorsementCapabilityId =
      false := by
  have genesis : (⟨activations⟩ : CapabilityHistory).effectiveSet X height = .genesis X := by
    unfold CapabilityHistory.effectiveSet
    induction activations with
    | nil => rfl
    | cons a rest ih =>
      rw [foldl_cons, if_neg (Nat.not_le.mpr (later a mem_cons_self))]
      exact ih fun b member => later b (mem_cons_of_mem _ member)
  rw [genesis]
  simp [CapabilitySet.genesis, genesisCapabilities, lookupCapability, capabilityV1,
    CapabilitySet.insert, CapabilitySet.isActive, stateCommitmentCapabilityId,
    endorsementCapabilityId, pdcCapabilityId, bftConsensusCapabilityId]

/-- The first two blocks pass whatever the provider, and then the record does. -/
theorem endorsingChain_steps (V : PrincipalProvider) :
    enforceChainStep X V.evaluate (⟨[]⟩, ⟨[]⟩) (sealedGenesis X) = .ok (⟨[]⟩, ⟨[]⟩) ∧
      enforceChainStep X V.evaluate (⟨[]⟩, ⟨[]⟩) (activating X endorsementCapabilityId) =
        .ok (⟨[sampleActivation X endorsementCapabilityId]⟩, ⟨[]⟩) ∧
      enforceChainStep X V.evaluate (⟨[sampleActivation X endorsementCapabilityId]⟩, ⟨[]⟩)
        (recordBlock X) = .ok (⟨[sampleActivation X endorsementCapabilityId]⟩, ⟨[]⟩) := by
  have capability := validateBlock_activating X
    (show lookupCapability endorsementCapabilityId = some ⟨endorsementCapabilityId, 1⟩ by decide)
  simp only [enforceChainStep_eq_ok]
  refine ⟨⟨⟨rfl, fun active => ?_, rfl⟩, rfl⟩, ⟨⟨?_, fun active => ?_, rfl⟩, ?_⟩, ⟨rfl, fun _ =>
    recordBlock_passes X V _, rfl⟩, rfl⟩
  · have inactive := endorsement_inactive X [] 0 (by simp)
    cases inactive.symm.trans active
  · rw [capability]
  · have inactive := endorsement_inactive X [sampleActivation X endorsementCapabilityId] 1
      (by simp [sampleActivation])
    unfold activeFor at active
    rw [capability] at active
    cases inactive.symm.trans active
  · rw [replayNext, capability]
    rfl

lemma recordBlock_syncAccepts (V : PrincipalProvider) :
    enforceChainEndorsements X (some V.evaluate) (endorsingChain X ++ [recordBlock X]) = .ok () := by
  obtain ⟨first, second, third⟩ := endorsingChain_steps X V
  simp only [enforceChainEndorsements, endorsingChain, cons_append, nil_append,
    foldlM_cons, foldlM_nil, first, second, third, bind, Except.bind, pure, Except.pure]

lemma replayed_endorsingChain :
    replayed X (endorsingChain X) = (⟨[sampleActivation X endorsementCapabilityId]⟩, ⟨[]⟩) := by
  obtain ⟨first, second, -⟩ := endorsingChain_steps X ⟨fun _ _ => .ok ∅⟩
  simp only [replayed, endorsingChain, foldl_cons, foldl_nil,
    ← ((enforceChainStep_eq_ok _ _ _ _ _).mp first).2,
    ← ((enforceChainStep_eq_ok _ _ _ _ _).mp second).2]

lemma recordBlock_active :
    activeFor X (replayed X (endorsingChain X)) (recordBlock X) = true := by
  rw [replayed_endorsingChain]
  exact effectiveSet_activation X _ le_rfl

/-- The carrier of the inventory update is evaluated, so the network has to sign. -/
theorem inventoryBlock_peerAccepts :
    PeerAccepts X (endorsingState X) (endorsingChain X) (inventoryBlock X)
      ⟨fun _ _ => .ok {⟨networkGovernancePrincipal⟩}⟩ := by
  refine peerAccepts_iff.mpr ⟨_, rfl, fun _ => ⟨rfl, ⟨fun tx member => ?_, fun w written => ?_⟩⟩⟩
  · rw [mem_singleton.mp member]
    refine evaluateTransactionEndorsements_eq_ok.mpr ⟨by simp, by simp, fun _ e carrier => ?_, rfl⟩
    rw [mem_singleton.mp carrier]
    exact evaluateCarrier_principals.mpr ⟨_, rfl, show
      ∀ policy ∈ PolicyHistory.layersOf ⟨[]⟩ _, _ from by decide⟩
  · rw [mem_singleton.mp written]
    exact ⟨_, mem_singleton_self _, _, mem_singleton_self _, by decide⟩

variable {X}

/-- Both equivalences at the record block, which fails their conditions, and the first one at the
inventory block, which meets its condition: every provider under which it passes endorses. -/
theorem writes_endorsed_iff_record :
    let X := Externals.plain 0
    let chain := endorsingChain X
    let block := recordBlock X
    ((∀ V, PeerAccepts X (endorsingState X) chain block V →
        activeFor X (replayed X chain) block = true →
        ∀ w ∈ block.writeSet, Endorsed X V (replayed X chain).2 block w) ↔
      (activeFor X (replayed X chain) block = true → ∀ w ∈ block.writeSet,
        capabilityActive X (endorsingState X) chain block.index endorsementCapabilityId = true ∧
          CoveredOffRecord block w fun target => Entails
            ((endorsingState X).policies.layersOf target) ((replayed X chain).2.layersFor w))) ∧
    ((∀ V : PrincipalProvider,
        enforceChainEndorsements X (some V.evaluate) (chain ++ [block]) = .ok () →
        ∀ before b after, chain ++ [block] = before ++ b :: after →
          activeFor X (replayed X before) b = true → ∀ w ∈ b.writeSet,
            Endorsed X V (replayed X before).2 b w) ↔
      ∀ before b after, chain ++ [block] = before ++ b :: after →
        activeFor X (replayed X before) b = true → ∀ w ∈ b.writeSet,
          CoveredOffRecord b w fun _ => True) ∧
    ∀ V, PeerAccepts X (endorsingState X) chain (inventoryBlock X) V →
      Endorsed X V (replayed X chain).2 (inventoryBlock X) unsignedWrite := by
  intro X chain block
  refine ⟨(writes_endorsed_iff X).1 _ _ _ ⟨fun _ _ => .ok ∅⟩ (recordBlock_peerAccepts X _),
    (writes_endorsed_iff X).2 _ ⟨fun _ _ => .ok ∅⟩ ?_ (recordBlock_syncAccepts X _),
    fun V accepted => ?_⟩
  · simp [chain, block, endorsingChain, sealedGenesis, genesisBlock, activating, Block.after,
      Block.withWriteSet, recordBlock]
  · refine ((writes_endorsed_iff X).1 _ _ _ _ (inventoryBlock_peerAccepts X)).mpr (fun _ w written =>
      ?_) V accepted (recordBlock_active X) _ (mem_singleton_self _)
    rw [mem_singleton.mp written]
    have covers : (⟨⟨"supply", "inventory", ["sku"], none⟩, []⟩ : TransactionEndorsement).covers
        unsignedWrite = true := by decide
    refine ⟨effectiveSet_activation X _ le_rfl, _, mem_singleton_self _, rfl, _,
      mem_singleton_self _, covers, ?_⟩
    rw [replayed_endorsingChain]
    exact Entails.of_covers covers

/-- With a provider that verifies nobody, the record block passes on both paths although no
signature stands behind its write. -/
theorem unsigned_write_accepted :
    let X := Externals.plain 0
    let chain := endorsingChain X
    let block := recordBlock X
    let nobody : PrincipalProvider := ⟨fun _ _ => .ok ∅⟩
    PeerAccepts X (endorsingState X) chain block nobody ∧
      enforceChainEndorsements X (some nobody.evaluate) (chain ++ [block]) = .ok () ∧
      activeFor X (replayed X chain) block = true ∧ unsignedWrite ∈ block.writeSet ∧
      ¬Endorsed X nobody (replayed X chain).2 block unsignedWrite := by
  intro X chain block nobody
  refine ⟨recordBlock_peerAccepts X _, recordBlock_syncAccepts X _, recordBlock_active X,
    mem_singleton_self _, ?_⟩
  rintro ⟨tx, -, e, -, -, holds⟩
  have signed := holds _ (channelDefault_mem_layersFor _ _)
  rw [principals_eq rfl, evaluate_empty] at signed
  cases signed

end GlassChain
