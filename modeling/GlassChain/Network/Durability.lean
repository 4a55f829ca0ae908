import GlassChain.Network.ChainRules
import GlassChain.Network.Finality

/-!
# Restart durability

A restart reads the stored chain back and verifies its certificates without an attached provider:
the validator sets are those the chain itself registers. A chain a node held passes the other rules
of a restart, so it comes back exactly when its registry is readable and registered throughout, and
every proper certificate was issued after the first registry write, by the set the registry names. A
block certified by the bootstrap set does not survive a restart.
-/

namespace GlassChain

open Library Block Timeline Ledger

variable {B : Multisig} {X : Externals} {key : B.PrivateKey} {chain : List Block}

/-- What a restart asks of the registry and the certificates of a chain. -/
structure Restartable (X : Externals) (B : Multisig) (chain : List Block) : Prop where
  readable : ReadableChain X chain
  registered : RegisteredChain X B chain
  backed : ∀ h b c, chain[h]? = some b → b.certificate = some c → c.isDegenerate = false →
    (chain.take h).any touchesRegistry = true ∧ ∃ P : BftConsensusProvider B,
      P.validators = liveInfos X (worldAfter (chain.take h)) ∧ P.verifyCertificate c b = .ok ()

/-- The certificate check of a block at the end of a replayed chain, without a bootstrap set. -/
theorem Audited.checkCertificate_none {A : ChainAudit B} {b : Block} (h : Audited X chain A)
    (index : b.index = chain.length) :
    A.checkCertificate none b = .ok () ↔
      ∀ c, b.certificate = some c → c.isDegenerate = false →
        chain.any touchesRegistry = true ∧ ∃ P : BftConsensusProvider B,
          P.validators = liveInfos X (worldAfter chain) ∧ P.verifyCertificate c b = .ok () := by
  unfold ChainAudit.checkCertificate
  rw [index]
  cases b.certificate with
  | none => simp
  | some c =>
    cases degenerate : c.isDegenerate with
    | true => simp [degenerate]
    | false =>
      obtain ⟨untouched, effective⟩ | ⟨touched, Q, effective, list⟩ := h.effectiveSet_cases none
      · simp [effective, untouched, degenerate]
      · simp only [effective, touched, true_and, Option.some.injEq, forall_eq', degenerate]
        refine ⟨fun accepted _ => ⟨Q, list, by simpa using accepted⟩, fun backed => ?_⟩
        obtain ⟨P, same, accepted⟩ := backed trivial
        simpa [BftConsensusProvider.verifyCertificate_congr (list.trans same.symm)] using accepted

/-- The certificates of a chain verify on a restart exactly when the chain is restartable. -/
theorem verify_none_iff (consecutive : Consecutive chain) :
    verifyChainCertificates X key chain none = .ok () ↔ Restartable X B chain := by
  rw [verifyChainCertificates_eq_ok, auditRegistry_ok_iff consecutive]
  have checks (h : Nat) (b : Block) (placed : chain[h]? = some b) {A : ChainAudit B}
      (run : auditRegistry X key (chain.take h) = .ok A) := by
    have inside := (List.getElem?_eq_some_iff.mp placed).1
    have index : b.index = (chain.take h).length := by
      rw [consecutive h b placed, List.length_take, Nat.min_eq_left inside.le]
    exact (audited_of_auditRegistry (consecutive.take h) run).checkCertificate_none index
  constructor
  · rintro ⟨⟨readable, registered⟩, checked⟩
    refine ⟨readable, registered, fun h b c placed => ?_⟩
    obtain ⟨A, run, certificate⟩ := checked h b placed
    exact (checks h b placed run).mp certificate c
  · intro restartable
    refine ⟨⟨restartable.readable, restartable.registered⟩, fun h b placed => ?_⟩
    obtain ⟨A, run⟩ : ∃ A, auditRegistry X key (chain.take h) = .ok A :=
      (auditRegistry_ok_iff (consecutive.take h)).mpr
        ⟨restartable.readable.take h, restartable.registered.take h⟩
    exact ⟨A, run, (checks h b placed run).mpr fun c => restartable.backed h b c placed⟩

/-- The other rules of a restart hold of every admitted chain. -/
theorem Admitted.restorable_iff {difficulty : Nat} (admitted : Admitted X difficulty chain)
    (consecutive : Consecutive chain) :
    restorable X key difficulty chain = true ↔ Restartable X B chain := by
  have certificates : verifyChainCertificates X key chain none = .ok () ↔ Restartable X B chain :=
    verify_none_iff consecutive
  rw [← certificates]
  clear certificates
  cases chain with
  | nil => exact absurd rfl admitted.linked.ne_nil
  | cons genesis rest =>
    simp [restorable, (admitted.linked.head_of rfl).2, admitted.start genesis rfl,
      admitted.windowsOk, isOk_iff]

lemma worldAfter_plain (plain : ∀ b ∈ chain, b.writeSet = []) : worldAfter chain = ∅ := by
  induction chain using List.reverseRecOn with
  | nil => rfl
  | append_singleton front last ih =>
    rw [worldAfter_append, plain last (by simp), List.foldl_nil]
    exact ih fun b mem => plain b (by simp [mem])

lemma restartable_plain (plain : ∀ b ∈ chain, b.certificate = none ∧ b.writeSet = []) :
    Restartable X B chain where
  readable := by
    intro b mem w written
    simp [(plain b mem).2] at written
  registered := by
    intro h _ v listed
    rw [worldAfter_plain fun b mem => (plain b (List.mem_of_mem_take mem)).2, liveInfos,
      registryEntries_empty] at listed
    simp at listed
  backed := by
    intro h b c placed carried
    simp [(plain b (List.mem_of_getElem? placed)).1] at carried

/-- Every block of an admitted chain was applied to an empty store: the restart at the same
difficulty gives the chain back exactly when it is restartable. -/
theorem restoreLedger_chain_iff {difficulty : Nat} (admitted : Admitted X difficulty chain) {s : Store}
    (stored : chain.foldlM Store.applyBlock Store.empty = .ok s) {clock : Nat → Nat} {fuel : Nat}
    {fresh : Ledger} (created : Ledger.new X clock fuel difficulty = some fresh) :
    (restoreLedger X key s fresh).chain = chain ↔ Restartable X B chain := by
  have holds : s.Holds chain := by simpa using (Store.holds_of_applied Store.holds_empty stored).1
  obtain ⟨same, -⟩ := Admitted.new created
  rw [restoreLedger, holds.storedChain, same]
  by_cases ok : restorable X key difficulty chain = true
  · simp [ok, (admitted.restorable_iff holds.consecutive).mp ok]
  · have refused : ¬Restartable X B chain := fun restartable =>
      ok ((admitted.restorable_iff holds.consecutive).mpr restartable)
    simp only [ok, refused, iff_false]
    intro unchanged
    -- the fresh chain is restartable, so it is not the stored one
    obtain ⟨genesis, mined, rfl⟩ := Option.map_eq_some_iff.mp created
    have spec := mine_spec mined
    have fresh : [genesis] = chain := by simpa using unchanged
    refine refused (fresh ▸ restartable_plain fun b mem => ?_)
    rw [List.mem_singleton.mp mem]
    exact ⟨spec.certificate, spec.writeSet⟩

/-- In every run from a new ledger: if every block of the chain was applied to storage, a restart at
the same difficulty restores the chain exactly when it is restartable. -/
theorem restart_restores_iff (injective : Function.Injective X.contentHash) {clock clock' : Nat → Nat}
    {fuel fuel' difficulty : Nat} {L fresh : Ledger} {t : Timeline} {s : Store}
    (created : Ledger.new X clock fuel difficulty = some L)
    (run : Reaches (Timeline.Step X) (Timeline.Coherent X (B := B)) ⟨L, []⟩ t)
    (stored : t.ledger.chain.foldlM Store.applyBlock Store.empty = .ok s)
    (again : Ledger.new X clock' fuel' difficulty = some fresh) :
    (restoreLedger X key s fresh).chain = t.ledger.chain ↔ Restartable X B t.ledger.chain :=
  restoreLedger_chain_iff (admitted_along_runs injective created run).2 stored again

lemma fresh_adopts (X : Externals) (v : ChainView B) (open_ : v.endorsement = none) :
    (freshPool X).ledger.receive X (.chain v (bftLedger X 0).chain) = bftLedger X 0 := by
  have plain : ∀ b ∈ (bftLedger X 0).chain, b.certificate = none ∧ b.writeSet = [] := by
    simp [bftLedger, sealedGenesis, genesisBlock, activationBlock, Block.after, withWriteSet]
  have audited : verifyChainCertificates X v.verifierKey (bftLedger X 0).chain v.bootstrap =
      .ok () := by
    simp only [verifyChainCertificates, ChainAudit.foldlM_plain plain]
    rfl
  have first : (activationBlock X).chainsTo X (sealedGenesis X) = .ok () := after_chainsTo X _ _
  have sealed : (sealedGenesis X).isValid X = true := isValid_iff.mpr rfl
  have work (b : Block) : b.hasValidPow 0 = true := by simp [hasValidPow, hasLeadingZeros]
  have adopts : (freshPool X).ledger.adopts X (bftLedger X 0).chain = true := by
    simp [adopts, freshPool, bftLedger, candidateBlocksOk, isOk_iff.mpr first,
      blockConsensusAdmissible, work, sealed, validateBlock_activation]
  simp only [receive, receiveChain, enforceChainEndorsements, open_, audited,
    tryReplaceChain, if_pos adopts]
  rfl

/-- A node that adopts the activation, -/
theorem adopted_run (X : Externals) :
    Reaches (Timeline.Step X) (Timeline.Coherent X (B := Multisig.symbolic 48))
      ⟨(freshPool X).ledger, []⟩ ⟨bftLedger X 0, [(freshPool X).ledger]⟩ := by
  have adopted : Timeline.Step X ⟨(freshPool X).ledger, []⟩
      (.receive (.chain soloView (bftLedger X 0).chain)) ⟨bftLedger X 0, [(freshPool X).ledger]⟩ := by
    simp only [Timeline.Step, next, fresh_adopts X soloView rfl]
  exact (Reaches.refl _).tail (.receive (.chain soloView (bftLedger X 0).chain)) trivial adopted

/-- and then a block certified by its bootstrap set. -/
theorem certified_run (X : Externals) : ∃ c,
    CertifiedBy (sampleProvider [1] 1) (certifiedBlock X c) ∧
      Reaches (Timeline.Step X) (Timeline.Coherent X (B := Multisig.symbolic 48))
        ⟨(freshPool X).ledger, []⟩
        ⟨certifiedLedger X 0 c, [bftLedger X 0, (freshPool X).ledger]⟩ := by
  obtain ⟨c, certified, admitted⟩ := exists_certifiedLedger X 0
  have coherent : Timeline.Coherent X ⟨bftLedger X 0, [(freshPool X).ledger]⟩
      (.receive (.block (undisturbedView (bftLedger X 0) (soloState X)) (certifiedBlock X c))) := rfl
  have appended : Timeline.Step X ⟨bftLedger X 0, [(freshPool X).ledger]⟩
      (.receive (.block (undisturbedView (bftLedger X 0) (soloState X)) (certifiedBlock X c)))
      ⟨certifiedLedger X 0 c, [bftLedger X 0, (freshPool X).ledger]⟩ := by
    simp only [Timeline.Step, next, admitted]
  exact ⟨c, certified, (adopted_run X).tail _ coherent appended⟩

/-- A stored block whose certificate is by the bootstrap set: the restart drops the whole chain. -/
theorem restart_loses_certified : ∃ (L fresh : Ledger) (t : Timeline) (s : Store),
    Ledger.new (.plain 0) id 0 0 = some L ∧
      Reaches (Timeline.Step (.plain 0)) (Timeline.Coherent (.plain 0) (B := Multisig.symbolic 48))
        ⟨L, []⟩ t ∧
      t.ledger.chain.foldlM Store.applyBlock Store.empty = .ok s ∧
      Ledger.new (.plain 0) id 0 t.ledger.difficulty = some fresh ∧
      (∃ b ∈ t.ledger.chain, CertifiedBy (sampleProvider [1] 1) b) ∧
      (restoreLedger (.plain 0) (sampleKey 1) s fresh).chain ≠ t.ledger.chain := by
  obtain ⟨c, certified, run⟩ := certified_run (.plain 0)
  have admitted := (admitted_along_runs (Externals.plain_contentHash_injective 0)
    (new_zero _) run).2
  obtain ⟨s, stored⟩ := admitted.linked.exists_stored
  refine ⟨_, _, _, s, new_zero _, run, stored, new_zero _,
    ⟨certifiedBlock (.plain 0) c, by simp [certifiedLedger], certified⟩, fun restored => ?_⟩
  have restartable : Restartable (.plain 0) (Multisig.symbolic 48) _ :=
    (restoreLedger_chain_iff admitted stored (new_zero _)).mp restored
  obtain ⟨_, carried, proper, -⟩ := certified
  obtain ⟨touched, -⟩ := restartable.backed 2 (certifiedBlock (.plain 0) c) _ rfl carried proper
  simp [certifiedLedger, bftLedger, touchesRegistry, sealedGenesis, genesisBlock, activationBlock,
    Block.after, withWriteSet] at touched

/-- A chain without certificates survives the restart. -/
theorem restart_restores_work : ∃ s : Store,
    (bftLedger (.plain 0) 0).chain.foldlM Store.applyBlock Store.empty = .ok s ∧
      (restoreLedger (.plain 0) (sampleKey 1) s (freshPool (.plain 0)).ledger).chain =
        (bftLedger (.plain 0) 0).chain := by
  have injective := Externals.plain_contentHash_injective 0
  have run := adopted_run (.plain 0)
  obtain ⟨s, stored⟩ := (admitted_along_runs injective (new_zero _) run).2.linked.exists_stored
  refine ⟨s, stored, (restart_restores_iff injective (new_zero _) run stored (new_zero _)).mpr ?_⟩
  apply restartable_plain
  simp [bftLedger, sealedGenesis, genesisBlock, activationBlock, Block.after, withWriteSet]

end GlassChain
