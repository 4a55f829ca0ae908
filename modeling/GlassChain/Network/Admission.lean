import GlassChain.Network.Mining
import GlassChain.Network.Registry

/-!
# Admitting blocks and chains

How a node treats `Message::Block` and `Message::Chain`. A block is checked against what the node
finds at several lock acquisitions and is appended at the last one, on whatever tip is there then; a
full chain is checked as a whole and handed to `try_replace_chain`; a suffix is taken block by
block. As for mining, what is found on the way is part of the input, and only the ledger of the last
step is the current one.
-/

namespace GlassChain

open Library List MiningView

variable {B : Multisig}

structure CapabilityAdvertisement where
  id : String
  version : Nat
  deriving DecidableEq, Repr

abbrev PeerRegistry := String → Option (List CapabilityAdvertisement)

def CapabilitySet.activeVersion (s : CapabilitySet) (id : String) : Option (Nat × String) :=
  (s.active.find? (·.1 == id)).map (·.2)

def supports (advertised : List CapabilityAdvertisement) (set : CapabilitySet) : Bool :=
  capabilityV1.all fun c => match set.activeVersion c.id with
    | none => true
    | some (version, _) => advertised.any fun a => a.id == c.id && a.version == version

def PeerRegistry.isReadOnly (registry : PeerRegistry) (address : String) (set : CapabilitySet) :
    Bool :=
  match registry address with
  | none => true
  | some advertised => !supports advertised set

/-- The capability set at the tip; an underivable history gives the genesis set. -/
def activeSetAtTip (X : Externals) (S : CommitState) (chain : List Block) : CapabilitySet :=
  match S.capabilityHistory with
  | some history => history.effectiveSet X (chain.length - 1)
  | none => match CapabilityHistory.buildFromBlocks X chain with
    | .ok history => history.effectiveSet X (chain.length - 1)
    | .error _ => .genesis X

def futureTimestampWindowSecs : Nat := 7200

def timestampWithinFutureWindow (blockIndex blockTimestamp nowSecs : Nat) : Bool :=
  blockIndex == 0 || blockTimestamp ≤ nowSecs + futureTimestampWindowSecs

/-- What the handling of a block message finds until it appends. -/
structure BlockView (B : Multisig) where
  /-- The sender's stable address after a successful handshake. -/
  sender : Option String
  registry : PeerRegistry
  /-- State and chain at the read-only check. -/
  gating : CommitState × List Block
  nowSecs : Nat
  /-- The state during the admission check. -/
  state : NodeState B
  /-- The chain's length when the capability is read. -/
  nextHeight : Nat
  /-- The chain a missing capability cache is rebuilt from. -/
  rebuilding : List Block
  /-- The ledger the block is checked against. -/
  tip : Ledger
  /-- State and chain at the endorsement gate. -/
  endorsing : CommitState × List Block

inductive BlockVerdict where
  | ignored
  | rejected
  | tooFarAhead
  | append
  deriving DecidableEq, Repr

namespace BlockView

/-- Read before the capability cache is rebuilt: without a cache the capability counts as
inactive. -/
def bftConsensusActive (X : Externals) (v : BlockView B) : Bool :=
  v.state.capabilityHistory.any fun history =>
    (history.effectiveSet X v.nextHeight).isActive bftConsensusCapabilityId

def history (X : Externals) (v : BlockView B) : CapabilityHistory :=
  match v.state.capabilityHistory with
  | some history => history
  | none => (CapabilityHistory.buildFromBlocks X v.rebuilding).toOption.getD ⟨[]⟩

/-- A certificate counts where the capability is active; Proof of Work stays the rule otherwise. -/
def consensusValid (X : Externals) (v : BlockView B) (block : Block) : Bool :=
  match block.certificate with
  | some certificate =>
    if v.bftConsensusActive X && !certificate.isDegenerate then
      match (deriveValidatorProvider X v.state).2 with
      | some provider => (provider.verifyCertificate certificate block).isOk
      | none => false
    else block.hasValidPow v.tip.difficulty
  | none => block.hasValidPow v.tip.difficulty

def endorsed (X : Externals) (v : BlockView B) (block : Block) : Bool :=
  (v.endorsing.1.enforceBlockEndorsements X v.endorsing.2 block []).2.isOk

def chainVerdict (X : Externals) (v : BlockView B) (block : Block) : BlockVerdict :=
  if block.index = v.tip.chain.length then
    match v.tip.chain.getLast? with
    | none => .rejected
    | some previous =>
      if (block.chainsTo X previous).isOk && ((v.history X).validateBlock X block).2.isOk &&
          v.consensusValid X block && v.endorsed X block then .append
      else .rejected
  else if v.tip.chain.length < block.index then .tooFarAhead
  else .rejected

def verdict (X : Externals) (v : BlockView B) (block : Block) : BlockVerdict :=
  match v.sender with
  | none => .ignored
  | some address =>
    if v.registry.isReadOnly address (activeSetAtTip X v.gating.1 v.gating.2) ||
        !timestampWithinFutureWindow block.index block.timestamp v.nowSecs then .ignored
    else v.chainVerdict X block

end BlockView

namespace BlockView

variable {X : Externals} {v : BlockView B} {b : Block}

/-- Every check of a block but the one of its consensus evidence. -/
structure GatesOpen (X : Externals) (v : BlockView B) (b : Block) : Prop where
  sender : ∃ address, v.sender = some address ∧
    v.registry.isReadOnly address (activeSetAtTip X v.gating.1 v.gating.2) = false
  timestamp : timestampWithinFutureWindow b.index b.timestamp v.nowSecs = true
  index : b.index = v.tip.chain.length
  chains : ∃ previous, v.tip.chain.getLast? = some previous ∧
    (b.chainsTo X previous).isOk = true
  capability : ((v.history X).validateBlock X b).2.isOk = true
  endorsed : v.endorsed X b = true

lemma verdict_eq_append : v.verdict X b = .append ↔
    v.GatesOpen X b ∧ v.consensusValid X b = true := by
  constructor
  · intro appended
    unfold verdict at appended
    cases known : v.sender with
    | none => simp [known] at appended
    | some address =>
      simp only [known] at appended
      split at appended
      · cases appended
      · rename_i passes
        rw [Bool.or_eq_true, not_or, Bool.not_eq_true, Bool.not_eq_true, Bool.not_eq_false'] at passes
        unfold chainVerdict at appended
        split at appended
        · rename_i index
          cases last : v.tip.chain.getLast? with
          | none => simp [last] at appended
          | some previous =>
            simp only [last] at appended
            split at appended
            · rename_i checks
              simp only [Bool.and_eq_true] at checks
              obtain ⟨⟨⟨chains, capability⟩, consensus⟩, endorsed⟩ := checks
              exact ⟨⟨⟨address, known, passes.1⟩, passes.2, index, ⟨previous, last, chains⟩,
                capability, endorsed⟩, consensus⟩
            · cases appended
        · split at appended <;> cases appended
  · rintro ⟨gates, consensus⟩
    obtain ⟨address, known, writer⟩ := gates.sender
    obtain ⟨previous, last, chains⟩ := gates.chains
    have reached : v.verdict X b = v.chainVerdict X b := by
      simp [verdict, known, writer, gates.timestamp]
    rw [reached, chainVerdict, if_pos gates.index]
    simp [last, chains, gates.capability, consensus, gates.endorsed]

/-- Where the capability is active a proper certificate is the evidence. -/
theorem consensusValid_certificate {c : QuorumCertificate} {Q : BftConsensusProvider B}
    (active : v.bftConsensusActive X = true)
    (derived : (deriveValidatorProvider X v.state).2 = some Q) (proper : c.isDegenerate = false) :
    v.consensusValid X { b with certificate := some c } = true ↔
      Q.verifyCertificate c { b with certificate := some c } = .ok () := by
  simp only [consensusValid, active, proper, derived, Bool.not_false, Bool.and_self, if_true]
  cases Q.verifyCertificate c { b with certificate := some c } with
  | error e => simp [Except.isOk, Except.toBool]
  | ok _ => simp [Except.isOk, Except.toBool]

/-- No other gate looks at the certificate. -/
theorem GatesOpen.withCertificate (gates : v.GatesOpen X b) (c : Option QuorumCertificate) :
    v.GatesOpen X { b with certificate := c } :=
  ⟨gates.sender, gates.timestamp, gates.index, gates.chains, gates.capability, gates.endorsed⟩

/-- With the other gates open a proper certificate decides, where the capability is active. -/
theorem verdict_certificate_iff {c : QuorumCertificate} {Q : BftConsensusProvider B}
    (gates : v.GatesOpen X b) (active : v.bftConsensusActive X = true)
    (derived : (deriveValidatorProvider X v.state).2 = some Q) (proper : c.isDegenerate = false) :
    v.verdict X { b with certificate := some c } = .append ↔
      Q.verifyCertificate c { b with certificate := some c } = .ok () := by
  rw [verdict_eq_append, and_iff_right (gates.withCertificate _),
    consensusValid_certificate active derived proper]

end BlockView

variable (X)

/-- `Message::Block`: the tip is checked again when the block is appended. -/
def receiveBlock (L : Ledger) (v : BlockView B) (block : Block) : Ledger :=
  match v.verdict X block with
  | .append => (L.appendPeerBlock X block).1
  | _ => L

def enforceChainStep (provider : EndorsementProvider) (replay : CapabilityHistory × PolicyHistory)
    (block : Block) :
    Except CoreError (CapabilityHistory × PolicyHistory) := do
  let (capabilities, replayed) := replay.1.validateBlock X block
  replayed
  if (capabilities.effectiveSet X block.index).isActive endorsementCapabilityId then
    block.transactions.forM fun tx =>
      evaluateTransactionEndorsements X provider replay.2 tx [] block.index
    checkAggregateCoverage block
  let (policies, updated) := replay.2.validateBlock block
  updated
  return (capabilities, policies)

def enforceChainEndorsements (endorsement : Option EndorsementProvider) (candidate : List Block) :
    Except CoreError Unit :=
  match endorsement with
  | none => .ok ()
  | some provider => do
    let _ ← candidate.foldlM (enforceChainStep X provider) (⟨[]⟩, ⟨[]⟩)

/-- What the handling of a full chain finds until it replaces. -/
structure ChainView (B : Multisig) where
  endorsement : Option EndorsementProvider
  /-- The attached provider. -/
  bootstrap : Option (BftConsensusProvider B)
  /-- The key the replay builds its verifying providers with. -/
  verifierKey : B.PrivateKey

/-- `Message::Chain` from height 0. -/
def receiveChain (L : Ledger) (v : ChainView B) (blocks : List Block) : Ledger :=
  match enforceChainEndorsements X v.endorsement blocks with
  | .error _ => L
  | .ok () => match verifyChainCertificates X v.verifierKey blocks v.bootstrap with
    | .error _ => L
    | .ok () => (L.tryReplaceChain X blocks).1

def replacesChain (L : Ledger) (v : ChainView B) (blocks : List Block) : Bool :=
  (enforceChainEndorsements X v.endorsement blocks).isOk &&
    (verifyChainCertificates X v.verifierKey blocks v.bootstrap).isOk && L.adopts X blocks

/-- Everything that changes a node's ledger. A suffix is a block message for each of its blocks. -/
inductive LedgerInput (B : Multisig) where
  | submit (tx : Transaction)
  | prepare
  | mine (view : MiningView)
  | block (view : BlockView B) (block : Block)
  | chain (view : ChainView B) (blocks : List Block)
  | suffix (blocks : List (BlockView B × Block))

/-- The ledger after an input; `mine` is the last step of `mine_async`, on the ledger it finds. -/
def Ledger.receive (L : Ledger) : LedgerInput B → Ledger
  | .submit tx => (L.addTransaction X tx).1
  | .prepare => L.prepareMining.1
  | .mine view => match { view with finishing := L }.mineAsync X with
    | some (L, _) => L
    | none => L
  | .block view block => receiveBlock X L view block
  | .chain view blocks => receiveChain X L view blocks
  | .suffix blocks => blocks.foldl (fun L (view, block) => receiveBlock X L view block) L

variable {X}

variable {X : Externals} {L : Ledger}

/-- Mining extends the chain by the block it commits, if any. -/
theorem Ledger.receive_mine_chain (v : MiningView) :
    (L.receive X (.mine v : LedgerInput B)).chain =
      L.chain ++ (({ v with finishing := L } : MiningView).committed X).toList := by
  simp only [Ledger.receive]
  split
  · rename_i done
    exact mineAsync_chain done
  · rename_i running
    simp [committed_eq_none running]

/-- A block message leaves the chain alone or appends an admitted block to the tip of the moment. -/
theorem receiveBlock_cases (v : BlockView B) (block : Block) :
    receiveBlock X L v block = L ∨ v.verdict X block = .append ∧ L.extendsTip X block = true ∧
      receiveBlock X L v block = { L with
        pendingTransactions := L.pendingTransactions.filter fun t =>
          !(txIds block.transactions).contains t.id
        chain := L.chain ++ [block] } := by
  unfold receiveBlock
  split
  · rename_i admitted
    exact (Ledger.appendPeerBlock_cases X L block).imp id fun appended => ⟨admitted, appended⟩
  · exact .inl rfl

/-- A chain message leaves the ledger alone or adopts a chain that passed both replays. -/
theorem receiveChain_eq {v : ChainView B} {blocks : List Block} :
    receiveChain X L v blocks =
      if replacesChain X L v blocks then { L with chain := blocks }.resetIndexes else L := by
  unfold receiveChain replacesChain Ledger.tryReplaceChain
  cases enforceChainEndorsements X v.endorsement blocks with
  | error e => rfl
  | ok =>
    cases verifyChainCertificates X v.verifierKey blocks v.bootstrap with
    | error e => rfl
    | ok => cases L.adopts X blocks <;> rfl

lemma receiveChain_cases (v : ChainView B) (blocks : List Block) :
    receiveChain X L v blocks = L ∨
      enforceChainEndorsements X v.endorsement blocks = .ok () ∧
      verifyChainCertificates X v.verifierKey blocks v.bootstrap = .ok () ∧
      L.adopts X blocks = true ∧
      receiveChain X L v blocks = { L with chain := blocks }.resetIndexes := by
  rw [receiveChain_eq]
  split
  · rename_i replaces
    simp only [replacesChain, Bool.and_eq_true, isOk_iff] at replaces
    obtain ⟨⟨endorsed, verified⟩, adopts⟩ := replaces
    exact .inr ⟨endorsed, verified, adopts, rfl⟩
  · exact .inl rfl

lemma Ledger.receive_difficulty (input : LedgerInput B) :
    (L.receive X input).difficulty = L.difficulty := by
  have block (L : Ledger) (v : BlockView B) (b : Block) :
      (receiveBlock X L v b).difficulty = L.difficulty := by
    obtain same | ⟨-, -, grown⟩ := receiveBlock_cases (X := X) (L := L) v b
    · rw [same]
    · rw [grown]
  cases input with
  | submit tx =>
    obtain e | e | e | ⟨-, -, e⟩ := L.addTransaction_cases X tx <;> simp [Ledger.receive, e]
  | prepare =>
    simp only [Ledger.receive, Ledger.prepareMining]
    split <;> rfl
  | mine v =>
    simp only [Ledger.receive]
    split
    · rename_i done
      exact mineAsync_difficulty done
    · rfl
  | block v b => exact block L v b
  | chain v blocks =>
    obtain same | ⟨-, -, -, replaced⟩ := receiveChain_cases (X := X) (L := L) v blocks
    · simp only [Ledger.receive, same]
    · simp only [Ledger.receive, replaced, Ledger.resetIndexes]
  | suffix blocks =>
    simp only [Ledger.receive]
    induction blocks generalizing L with
    | nil => rfl
    | cons item rest ih => rw [foldl_cons, ih, block]

def Ledger.Step (X : Externals) (L : Ledger) (input : LedgerInput B) (L' : Ledger) : Prop :=
  L' = L.receive X input

/-- Every block of a chain has a property of the blocks before it and itself. -/
def EachBlock (P : List Block → Block → Prop) (chain : List Block) : Prop :=
  ∀ h b, chain[h]? = some b → P (chain.take h) b

/-- A relation at every block of a suffix, with the ledger the blocks before it lead to. -/
def EachPeerBlock (X : Externals) (R : Ledger → BlockView B → Block → Prop) (L : Ledger) :
    List (BlockView B × Block) → Prop
  | [] => True
  | (view, b) :: rest => R L view b ∧ EachPeerBlock X R (receiveBlock X L view b) rest

def AddsBlock (X : Externals) (P : List Block → Block → Prop) (L : Ledger) (view : BlockView B)
    (b : Block) : Prop :=
  view.verdict X b = .append → L.extendsTip X b = true → P L.chain b

def AddsOnly (X : Externals) (P : List Block → Block → Prop) (L : Ledger) : LedgerInput B → Prop
  | .submit _ | .prepare => True
  | .mine view => ∀ b, ({ view with finishing := L } : MiningView).committed X = some b → P L.chain b
  | .block view b => AddsBlock X P L view b
  | .chain view blocks => replacesChain X L view blocks = true → EachBlock P blocks
  | .suffix blocks => EachPeerBlock X (AddsBlock X P) L blocks

lemma EachPeerBlock.mono {R R' : Ledger → BlockView B → Block → Prop}
    (weaker : ∀ L view b, R L view b → R' L view b) {blocks : List (BlockView B × Block)}
    (each : EachPeerBlock X R L blocks) : EachPeerBlock X R' L blocks := by
  induction blocks generalizing L with
  | nil => trivial
  | cons item rest ih => exact ⟨weaker _ _ _ each.1, ih each.2⟩

section EachBlock

variable {P Q : List Block → Block → Prop} {chain : List Block}

lemma EachBlock.snoc {b : Block} (each : EachBlock P chain) (last : P chain b) :
    EachBlock P (chain ++ [b]) := by
  intro h c placed
  by_cases inside : h < chain.length
  · rw [getElem?_append_left inside] at placed
    rw [take_append_of_le_length inside.le]
    exact each h c placed
  · obtain rfl : h = chain.length := by
      have := (List.getElem?_eq_some_iff.mp placed).1
      simp only [length_append, length_singleton] at this
      omega
    obtain rfl : b = c := by simpa using placed
    simpa using last

lemma EachBlock.restrict {front : List Block} (each : EachBlock P chain)
    (part : front <+: chain) : EachBlock P front := by
  obtain ⟨rest, rfl⟩ := part
  intro h c placed
  have inside := (List.getElem?_eq_some_iff.mp placed).1
  have same := each h c (by rwa [getElem?_append_left inside])
  rwa [take_append_of_le_length inside.le] at same

lemma EachBlock.of_snoc {b : Block} (each : EachBlock P (chain ++ [b])) :
    EachBlock P chain ∧ P chain b :=
  ⟨each.restrict (prefix_append _ _), by simpa using each chain.length b (by simp)⟩

lemma EachBlock.receiveBlock {v : BlockView B} {b : Block} (each : EachBlock P L.chain)
    (added : AddsBlock X P L v b) : EachBlock P (receiveBlock X L v b).chain := by
  obtain e | ⟨admitted, extending, e⟩ := receiveBlock_cases (X := X) (L := L) v b <;> rw [e]
  · exact each
  · exact each.snoc (added admitted extending)

lemma EachBlock.receive {input : LedgerInput B} (each : EachBlock P L.chain)
    (adds : AddsOnly X P L input) : EachBlock P (L.receive X input).chain := by
  cases input with
  | submit tx =>
    obtain e | e | e | ⟨-, -, e⟩ := L.addTransaction_cases X tx <;>
      simpa [Ledger.receive, e] using each
  | prepare =>
    simp only [Ledger.receive, Ledger.prepareMining]
    split <;> exact each
  | mine v =>
    rw [Ledger.receive_mine_chain]
    rcases committed : ({ v with finishing := L } : MiningView).committed X with _ | b
    · simpa using each
    · exact each.snoc (adds b committed)
  | block v b => exact each.receiveBlock adds
  | chain v blocks =>
    simp only [Ledger.receive, receiveChain_eq]
    split
    · rename_i replaces
      exact adds replaces
    · exact each
  | suffix blocks =>
    simp only [Ledger.receive]
    simp only [AddsOnly] at adds
    induction blocks generalizing L with
    | nil => exact each
    | cons item rest ih => exact ih (each.receiveBlock adds.1) adds.2

lemma AddsOnly.mono {input : LedgerInput B} (weaker : ∀ before b, P before b → Q before b)
    (adds : AddsOnly X P L input) : AddsOnly X Q L input := by
  cases input with
  | submit | prepare => trivial
  | mine v => exact fun b committed => weaker _ b (adds b committed)
  | block v b => exact fun admitted extending => weaker _ b (adds admitted extending)
  | chain v blocks => exact fun replaces h b placed => weaker _ b (adds replaces h b placed)
  | suffix blocks =>
    exact EachPeerBlock.mono (fun L v b added admitted extending =>
      weaker _ b (added admitted extending)) adds

end EachBlock

def openRegistry : PeerRegistry := fun _ => some (capabilityV1.map fun c => ⟨c.id, c.version⟩)

def undisturbedView (L : Ledger) (S : NodeState B) : BlockView B :=
  ⟨some "peer", openRegistry, (S.toCommitState, L.chain), 0, S, L.chain.length, L.chain, L,
    (S.toCommitState, L.chain)⟩

/-- A node without an executor, endorsement or consensus, on a chain without activations. -/
def openState (B : Multisig) : NodeState B :=
  ⟨⟨none, fun _ => none, ∅, none, ⟨[]⟩, some ⟨[]⟩⟩, none, none, none, ⟨∅⟩, [], none⟩

/-- A new node of difficulty zero takes any block after genesis. -/
theorem fresh_admits {b : Block} (chains : b.chainsTo X (sealedGenesis X) = .ok ())
    (now : b.timestamp = 0) (plain : b.certificate = none)
    (capability : (CapabilityHistory.validateBlock X ⟨[]⟩ b).2 = .ok ()) :
    (undisturbedView (freshPool X).ledger (openState B)).verdict X b = .append := by
  have index : b.index = 1 := (Block.chainsTo_iff.mp chains).2.1
  refine BlockView.verdict_eq_append.mpr ⟨⟨⟨"peer", rfl, ?_⟩, ?_, index,
    ⟨sealedGenesis X, rfl, isOk_iff.mpr chains⟩, isOk_iff.mpr capability, ?_⟩, ?_⟩
  · simp [undisturbedView, activeSetAtTip, openState, CapabilityHistory.effectiveSet,
      PeerRegistry.isReadOnly, openRegistry, supports, capabilityV1, CapabilitySet.activeVersion,
      CapabilitySet.genesis, genesisCapabilities, lookupCapability, CapabilitySet.insert,
      stateCommitmentCapabilityId, pdcCapabilityId, bftConsensusCapabilityId]
  · simp [timestampWithinFutureWindow, now]
  · simp [BlockView.endorsed, undisturbedView, CommitState.enforceBlockEndorsements, openState,
      isOk_iff]
  · simp [BlockView.consensusValid, plain, undisturbedView, freshPool, Block.hasValidPow,
      hasLeadingZeros]

end GlassChain
