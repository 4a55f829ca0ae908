import GlassChain.Network.CommitCertificate

/-!
# Finality

Only the adoption of a full chain can change a block that is already in the ledger; every other
input extends the chain. The replacement rule asks for a longer chain whose blocks carry Proof of
Work or a certificate, so a longer chain without certificates displaces a certified block. Finality
holds where every longer chain offered carries, at the certified height, a certificate under the
same set, and certificates under that set agree.
-/

namespace GlassChain

open Library List Block Ledger ChainAudit

variable {B : Multisig} {X : Externals}

def CertifiedBy (P : BftConsensusProvider B) (b : Block) : Prop :=
  ∃ c, b.certificate = some c ∧ c.isDegenerate = false ∧ P.verifyCertificate c b = .ok ()

/-- `Q` is the set against which the replay of a chain checks its block at `height`. -/
def ReplayedSet (X : Externals) (v : ChainView B) (blocks : List Block) (height : Nat) (b : Block)
    (Q : BftConsensusProvider B) : Prop :=
  ∃ A, (blocks.take height).foldlM (ChainAudit.step X v.verifierKey v.bootstrap) ⟨∅, []⟩ = .ok A ∧
    A.effectiveSet v.bootstrap b.index = some Q

variable {blocks : List Block} {b : Block}

/-- Every block of a chain that passes was checked in the state of the replay before it. -/
theorem checkCertificate_of_verify {v : ChainView B} {height : Nat}
    (verified : verifyChainCertificates X v.verifierKey blocks v.bootstrap = .ok ())
    (placed : blocks[height]? = some b) :
    ∃ A, (blocks.take height).foldlM (ChainAudit.step X v.verifierKey v.bootstrap) ⟨∅, []⟩ = .ok A ∧
      A.checkCertificate v.bootstrap b = .ok () := by
  have split : blocks = blocks.take height ++ b :: blocks.drop (height + 1) := by
    obtain ⟨inside, rfl⟩ := List.getElem?_eq_some_iff.mp placed
    rw [← drop_eq_getElem_cons inside, take_append_drop]
  obtain ⟨_, folded, -⟩ := bind_eq_ok.mp verified
  rw [split, foldlM_append] at folded
  obtain ⟨A, before, after⟩ := bind_eq_ok.mp folded
  obtain ⟨_, step, -⟩ := bind_eq_ok.mp after
  obtain ⟨_, checked, -⟩ := bind_eq_ok.mp step
  exact ⟨A, before, checked⟩

/-- A proper certificate in such a chain is accepted under the set of its height. -/
theorem certifiedBy_of_verify {v : ChainView B} {height : Nat} {c : QuorumCertificate}
    {P : BftConsensusProvider B}
    (verified : verifyChainCertificates X v.verifierKey blocks v.bootstrap = .ok ())
    (placed : blocks[height]? = some b) (carried : b.certificate = some c)
    (proper : c.isDegenerate = false)
    (same : ∀ Q, ReplayedSet X v blocks height b Q → Q.validators = P.validators) :
    CertifiedBy P b := by
  obtain ⟨A, before, checked⟩ := checkCertificate_of_verify verified placed
  simp only [checkCertificate, carried, proper] at checked
  cases set : A.effectiveSet v.bootstrap b.index with
  | none => simp [set] at checked
  | some Q =>
    simp only [set] at checked
    refine ⟨c, carried, proper, ?_⟩
    rw [← BftConsensusProvider.verifyCertificate_congr (same Q ⟨A, before, set⟩)]
    simpa using checked

lemma receiveBlock_extends (L : Ledger) (view : BlockView B) (block : Block) :
    L.chain <+: (receiveBlock X L view block).chain := by
  obtain same | ⟨-, -, grown⟩ := receiveBlock_cases (X := X) (L := L) view block
  · rw [same]
  · rw [grown]
    exact prefix_append _ _

lemma receive_extends (L : Ledger) {input : LedgerInput B}
    (other : ∀ view blocks, input ≠ .chain view blocks) : L.chain <+: (L.receive X input).chain := by
  cases input with
  | submit tx =>
    obtain same | folded | indexed | ⟨-, -, queued⟩ := addTransaction_cases X L tx
    all_goals simp [receive, *]
  | prepare =>
    simp only [receive, prepareMining]
    split
    · exact prefix_rfl
    · exact prefix_rfl
  | mine view =>
    rw [receive_mine_chain]
    exact prefix_append _ _
  | block view block => exact receiveBlock_extends L view block
  | chain view blocks => exact absurd rfl (other view blocks)
  | suffix blocks =>
    simp only [receive]
    clear other
    induction blocks generalizing L with
    | nil => exact prefix_rfl
    | cons item rest ih => exact (receiveBlock_extends L item.1 item.2).trans (ih _)

/-- A longer chain offered to the node carries at `height` one of the blocks in `offered`, with a
proper certificate, and its replay arrives there at the set of `P`. -/
def CarriesCertificate (X : Externals) (P : BftConsensusProvider B) (height : Nat)
    (offered : Set Block) (L : Ledger) : LedgerInput B → Prop
  | .chain view blocks => L.chain.length < blocks.length →
      ∃ b c, blocks[height]? = some b ∧ b ∈ offered ∧ b.certificate = some c ∧
        c.isDegenerate = false ∧
        ∀ Q, ReplayedSet X view blocks height b Q → Q.validators = P.validators
  | _ => True

/-- The block at `height` is certified under `P`, and one of those offered. -/
def Final (P : BftConsensusProvider B) (height : Nat) (offered : Set Block) (L : Ledger) : Prop :=
  ∃ b, L.chain[height]? = some b ∧ b ∈ offered ∧ CertifiedBy P b

variable {P : BftConsensusProvider B} {height : Nat} {offered : Set Block} {L L₀ : Ledger}

lemma Final.of_extends {L' : Ledger} (final : Final P height offered L)
    (grown : L.chain <+: L'.chain) : Final P height offered L' := by
  obtain ⟨b, placed, seen, certified⟩ := final
  obtain ⟨rest, same⟩ := grown
  obtain ⟨inside, -⟩ := List.getElem?_eq_some_iff.mp placed
  exact ⟨b, by rw [← same, getElem?_append_left inside, placed], seen, certified⟩

lemma Final.receiveChain {view : ChainView B} (final : Final P height offered L)
    (ok : CarriesCertificate X P height offered L (.chain view blocks)) :
    Final P height offered (receiveChain X L view blocks) := by
  obtain same | ⟨-, verified, adopted, replaced⟩ := receiveChain_cases (X := X) (L := L) view blocks
  · rw [same]
    exact final
  · have longer : L.chain.length < blocks.length := by
      simp only [adopts, Bool.and_eq_true, decide_eq_true_eq] at adopted
      exact adopted.1
    obtain ⟨b, c, placed, seen, carried, proper, same⟩ := ok longer
    rw [replaced]
    exact ⟨b, placed, seen, certifiedBy_of_verify verified placed carried proper same⟩

/-- Once a block is certified at a height, its hash stays in every run where longer chains carry a
certificate there and the certified blocks offered agree. -/
theorem finality_along_runs
    (agreement : ∀ b₁ ∈ offered, ∀ b₂ ∈ offered, CertifiedBy P b₁ → CertifiedBy P b₂ →
      b₁.hash = b₂.hash) (placed : L₀.chain[height]? = some b) (seen : b ∈ offered)
    (certified : CertifiedBy P b)
    (run : Reaches (Ledger.Step X) (CarriesCertificate X P height offered) L₀ L) :
    ∃ b', L.chain[height]? = some b' ∧ b'.hash = b.hash := by
  have final : Final P height offered L := by
    refine run.invariant (I := Final P height offered) ?_ ⟨b, placed, seen, certified⟩
    rintro L input _ final ok rfl
    cases input with
    | chain view blocks => exact final.receiveChain ok
    | _ => exact final.of_extends (receive_extends L (by simp))
  obtain ⟨b', placed', seen', certified'⟩ := final
  exact ⟨b', placed', agreement b' seen' b seen certified' certified⟩

/-- Under the stand-in hash every block that stores its own hash has Proof of Work. -/
theorem hasValidPow_plain {zeros : Nat} (valid : b.isValid (.plain zeros) = true) :
    b.hasValidPow zeros = true := by
  have digest : utf8 b.hash = List.replicate zeros 48 ++ utf8 (String.ofList
      ((utf8 (Externals.contentText b.content)).map fun x => Char.ofNat x.toNat)) := by
    rw [isValid_iff.mp valid, ← utf8_zeros, ← utf8_append, ← String.ofList_append]
    rfl
  simp [Block.hasValidPow, hasLeadingZeros, digest]

lemma ChainAudit.step_plain {key : B.PrivateKey} {bootstrap : Option (BftConsensusProvider B)}
    {A : ChainAudit B} (uncertified : b.certificate = none) (writes : b.writeSet = []) :
    A.step X key bootstrap b = .ok A := by
  simp [step, checkCertificate, uncertified, applyWrites, writes,
    bind, Except.bind, pure, Except.pure]

lemma ChainAudit.foldlM_plain {k : B.PrivateKey} {b : Option (BftConsensusProvider B)}
    {A : ChainAudit B} {l : List Block}
    (plain : ∀ block ∈ l, block.certificate = none ∧ block.writeSet = []) :
    l.foldlM (ChainAudit.step X k b) A = .ok A := by
  induction l with
  | nil => rfl
  | cons block rest ih =>
    obtain ⟨uncertified, writes⟩ := plain block mem_cons_self
    rw [foldlM_cons, step_plain uncertified writes]
    exact ih fun other mem => plain other (mem_cons_of_mem _ mem)

variable (X)

noncomputable def soloState : NodeState (Multisig.symbolic 48) :=
  ⟨bftCommitState X, some (sampleProvider [1] 1), none, none, ⟨∅⟩, [], none⟩

def certifiedBlock (c : QuorumCertificate) : Block :=
  { bftBlock X "a" with certificate := some c }

def certifiedLedger (difficulty : Nat) (c : QuorumCertificate) : Ledger :=
  { bftLedger X difficulty with
    chain := (bftLedger X difficulty).chain ++ [certifiedBlock X c] }

noncomputable def soloView : ChainView (Multisig.symbolic 48) :=
  ⟨none, some (sampleProvider [1] 1), sampleKey 1⟩

lemma exists_certifiedLedger (difficulty : Nat) : ∃ c,
    CertifiedBy (sampleProvider [1] 1) (certifiedBlock X c) ∧
      (bftLedger X difficulty).receive X (.block (undisturbedView (bftLedger X difficulty)
        (soloState X)) (certifiedBlock X c)) = certifiedLedger X difficulty c := by
  obtain ⟨c, attested⟩ := exists_solo_attested 1 (bftBlock X "a")
  have proper : c.isDegenerate = false := by
    simpa [QuorumCertificate.isDegenerate] using attested.nonempty
  have accepted : (sampleProvider [1] 1).verifyCertificate c (certifiedBlock X c) = .ok () :=
    (BftConsensusProvider.verifyCertificate_iff (Multisig.symbolicIdeal 48)).mpr
      (attested.of_same rfl rfl)
  obtain ⟨active, gates⟩ := undisturbedView_gates X difficulty
    (show (soloState X).toCommitState = bftCommitState X from rfl) "a"
  have derived : (deriveValidatorProvider X (soloState X)).2 = some (sampleProvider [1] 1) :=
    congrArg Prod.snd (deriveValidatorProvider_static rfl rfl rfl)
  have admitted : BlockView.verdict X _ (certifiedBlock X c) = .append :=
    (BlockView.verdict_certificate_iff gates active derived proper).mpr accepted
  have chains : (certifiedBlock X c).chainsTo X (activationBlock X) = .ok () :=
    after_chainsTo X (activationBlock X) [stockTx "a"]
  refine ⟨c, ⟨c, rfl, proper, accepted⟩, ?_⟩
  simp only [receive, receiveBlock, admitted, appendPeerBlock]
  rw [if_pos (by simp [extendsTip, bftLedger, chains, Except.isOk, Except.toBool])]
  rfl

def certifiedChain (c : QuorumCertificate) : List Block :=
  [sealedGenesis X, activationBlock X, certifiedBlock X c, (certifiedBlock X c).after X [stockTx "c"]]

variable {X}

lemma replayedSet_certifiedChain {c : QuorumCertificate}
    {Q : BftConsensusProvider (Multisig.symbolic 48)}
    (replayed : ReplayedSet X soloView (certifiedChain X c) 2 (certifiedBlock X c) Q) :
    Q = sampleProvider [1] 1 := by
  obtain ⟨A, folded, set⟩ := replayed
  have front : ∀ block ∈ (certifiedChain X c).take 2,
      block.certificate = none ∧ block.writeSet = [] := by
    simp [certifiedChain, sealedGenesis, genesisBlock, activationBlock, Block.after,
      Block.withWriteSet]
  rw [foldlM_plain front] at folded
  cases folded
  simpa [effectiveSet, soloView, eq_comm] using set

/-- A longer chain with the certified block leaves it in place. -/
theorem finality_one_chain : ∃ c L,
    Reaches (Ledger.Step (.plain 2)) (CarriesCertificate (.plain 2) (sampleProvider [1] 1) 2
      {certifiedBlock (.plain 2) c}) (certifiedLedger (.plain 2) 2 c) L ∧
      ∃ b', L.chain[2]? = some b' ∧ b'.hash = (certifiedBlock (.plain 2) c).hash := by
  obtain ⟨c, certified, -⟩ := exists_certifiedLedger (.plain 2) 2
  have proper : c.isDegenerate = false := by
    obtain ⟨_, ⟨⟩, proper, -⟩ := certified
    exact proper
  have run : Reaches (Ledger.Step (.plain 2)) (CarriesCertificate (.plain 2) (sampleProvider [1] 1) 2
      {certifiedBlock (.plain 2) c}) (certifiedLedger (.plain 2) 2 c) _ :=
    (Reaches.refl _).tail (.chain soloView (certifiedChain (.plain 2) c))
      (fun _ => ⟨certifiedBlock (.plain 2) c, c, rfl, rfl, rfl, proper,
        fun Q replayed => by rw [replayedSet_certifiedChain replayed]⟩) rfl
  refine ⟨c, _, run, ?_⟩
  refine finality_along_runs ?_ rfl (Set.mem_singleton _) certified run
  rintro _ rfl _ rfl _ _
  rfl

def powChain (X : Externals) : List Block :=
  [sealedGenesis X, activationBlock X, bftBlock X "b", (bftBlock X "b").after X [stockTx "c"]]

lemma powChain_plain (X : Externals) :
    ∀ block ∈ powChain X, block.certificate = none ∧ block.writeSet = [] := by
  simp [powChain, sealedGenesis, genesisBlock, activationBlock, bftBlock, Block.after,
    Block.withWriteSet]

lemma certifiedLedger_replaced (c : QuorumCertificate) :
    ((certifiedLedger (.plain 2) 2 c).receive (.plain 2) (.chain soloView
      (powChain (.plain 2)))).chain = powChain (.plain 2) := by
  have audited : verifyChainCertificates (.plain 2) soloView.verifierKey (powChain (.plain 2))
      soloView.bootstrap = .ok () := by
    have kept := foldlM_plain (X := .plain 2) (A := ⟨∅, []⟩) (b := soloView.bootstrap)
      (k := soloView.verifierKey) (l := powChain (.plain 2)) (powChain_plain _)
    simp only [verifyChainCertificates, kept]
    rfl
  have adopted : (certifiedLedger (.plain 2) 2 c).adopts (.plain 2) (powChain (.plain 2)) = true := by
    have admissible {b previous : Block} (chains : b.chainsTo (.plain 2) previous = .ok ()) :
        Ledger.blockConsensusAdmissible b 2 = true := by
      simp [blockConsensusAdmissible, hasValidPow_plain (chainsTo_iff.mp chains).2.2]
    have sealed : (sealedGenesis (.plain 2)).isValid (.plain 2) = true := isValid_iff.mpr rfl
    have first : (activationBlock (.plain 2)).chainsTo (.plain 2) (sealedGenesis (.plain 2)) =
        .ok () := after_chainsTo _ _ _
    have second : (bftBlock (.plain 2) "b").chainsTo (.plain 2) (activationBlock (.plain 2)) =
        .ok () := after_chainsTo _ _ _
    have third := after_chainsTo (.plain 2) (bftBlock (.plain 2) "b") [stockTx "c"]
    have replayed (h : CapabilityHistory) :
        h.validateBlock (.plain 2) (bftBlock (.plain 2) "b") = (h, .ok ()) :=
      CapabilityHistory.validateBlock_stock _ h _ "b"
    simp [adopts, certifiedLedger, bftLedger, powChain, candidateBlocksOk, first,
      second, third, admissible first, admissible second, admissible third, sealed,
      validateBlock_activation, replayed, CapabilityHistory.validateBlock_stock,
      hasValidPow_plain sealed, Except.isOk, Except.toBool]
  simp only [receive, receiveChain, audited, tryReplaceChain, if_pos adopted]
  rfl

/-- A block admitted by its certificate is replaced by a longer chain that has only Proof of
Work. -/
theorem certified_block_replaced : ∃ c,
    let b := certifiedBlock (.plain 2) c
    let L₁ := (bftLedger (.plain 2) 2).receive (.plain 2)
      (.block (undisturbedView (bftLedger (.plain 2) 2) (soloState (.plain 2))) b)
    let L₂ := L₁.receive (.plain 2) (.chain soloView (powChain (.plain 2)))
    Linked (.plain 2) (bftLedger (.plain 2) 2).chain ∧ L₁.chain[2]? = some b ∧
      CertifiedBy (sampleProvider [1] 1) b ∧ ∃ b', L₂.chain[2]? = some b' ∧ b'.hash ≠ b.hash := by
  obtain ⟨c, certified, admitted⟩ := exists_certifiedLedger (.plain 2) 2
  refine ⟨c, ?_, ?_, certified, bftBlock (.plain 2) "b", ?_, ?_⟩
  · exact .snoc (.genesis rfl (isValid_iff.mpr rfl)) rfl
      (after_chainsTo (.plain 2) (sealedGenesis (.plain 2)) _)
  · rw [admitted]
    rfl
  · rw [admitted, certifiedLedger_replaced]
    rfl
  · exact after_hash_ne (Externals.plain_contentHash_injective 2) _ (by decide)

end GlassChain
