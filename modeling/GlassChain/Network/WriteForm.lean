import GlassChain.Network.WriteScopes
import GlassChain.Network.Admission

/-!
# The form of committed writes

A miner commits a write set that is canonical, with private values redacted to their commitments,
and drops a candidate with private writes while the `pdc` capability is inactive. Nothing of this is
checked when a block comes from a peer. Every block of a chain has the form in the runs in which the
blocks taken from peers were committed by such a miner and the miner's own gate sees the history of
the chain.
-/

namespace GlassChain

open Library PersistentWrite List MiningView CapabilityHistory CommitState Ledger Block Multisig

variable {B : Multisig} {X : Externals}

namespace PersistentWrite

lemma scopeLe_trans (a b c : PersistentWrite) (ab : scopeLe a b = true) (bc : scopeLe b c = true) :
    scopeLe a c = true := Std.TransCmp.isLE_trans ab bc

lemma scopeLe_total (a b : PersistentWrite) : (scopeLe a b || scopeLe b a) = true := by
  have swap : compareLex (compareOn channel) (compareLex (compareOn contract) (compareOn key)) a b =
      (compareLex (compareOn channel) (compareLex (compareOn contract) (compareOn key)) b a).swap :=
    Std.OrientedCmp.eq_swap
  unfold scopeLe
  rw [swap]
  cases compareLex (compareOn channel) (compareLex (compareOn contract) (compareOn key)) b a <;> rfl

def StrictlySorted (writes : List PersistentWrite) : Prop :=
  writes.Pairwise fun w w' => scopeLe w w' = true ∧ w.scope ≠ w'.scope

variable {writes sorted : List PersistentWrite}

lemma canonicalize_self_iff : canonicalize writes = .ok writes ↔
    (∀ w ∈ writes, w.Named) ∧ StrictlySorted writes := by
  rw [canonicalize_eq_ok, and_assoc]
  refine and_congr_right fun _ => ?_
  constructor
  · rintro ⟨distinct, same⟩
    have ordered := pairwise_mergeSort scopeLe_trans scopeLe_total writes
    rw [same] at ordered
    exact ordered.and (pairwise_map.mp distinct)
  · intro strict
    exact ⟨pairwise_map.mpr (strict.imp And.right), mergeSort_of_pairwise (strict.imp And.left)⟩

lemma canonicalize_nil : canonicalize [] = .ok [] := canonicalize_self_iff.mpr ⟨by simp, .nil⟩

lemma canonicalize_idem (ok : canonicalize writes = .ok sorted) :
    canonicalize sorted = .ok sorted := by
  obtain ⟨⟨named, distinct⟩, rfl⟩ := canonicalize_eq_ok.mp ok
  have perm := mergeSort_perm writes scopeLe
  refine canonicalize_self_iff.mpr ⟨fun w mem => named w (perm.mem_iff.mp mem), ?_⟩
  exact (pairwise_mergeSort scopeLe_trans scopeLe_total writes).and
    (pairwise_map.mp ((perm.map scope).nodup_iff.mpr distinct))

/-- Redaction touches nothing but the value. -/
theorem blockForm_eq (w : PersistentWrite) : ∃ op, w.blockForm X = { w with op := op } := by
  unfold blockForm
  split
  · exact ⟨_, rfl⟩
  · exact ⟨w.op, rfl⟩

lemma checkScopes_blockForm (seen : List (String × String × String)) :
    checkScopes seen (writes.map (blockForm X)) = checkScopes seen writes := by
  induction writes generalizing seen with
  | nil => rfl
  | cons w writes ih =>
    obtain ⟨op, same⟩ := blockForm_eq (X := X) w
    simp only [map_cons, checkScopes, same, ih]
    rfl

/-- The canonical form of redacted writes is the redacted canonical form, and the same writes are
refused with the same error. -/
theorem canonicalize_map_blockForm :
    canonicalize (writes.map (blockForm X)) =
      (canonicalize writes).map (List.map (blockForm X)) := by
  have order (a b : PersistentWrite) : scopeLe a b = scopeLe (a.blockForm X) (b.blockForm X) := by
    obtain ⟨op, same⟩ := blockForm_eq (X := X) a
    obtain ⟨op', same'⟩ := blockForm_eq (X := X) b
    rw [same, same']
    rfl
  unfold canonicalize
  rw [checkScopes_blockForm, ← map_mergeSort fun a _ b _ => order a b]
  cases checkScopes [] writes <;> rfl

lemma canonicalize_blockForm (ok : canonicalize writes = .ok writes) :
    canonicalize (writes.map (blockForm X)) = .ok (writes.map (blockForm X)) := by
  rw [canonicalize_map_blockForm, ok]
  rfl

end PersistentWrite

def isLowerHex (c : UInt8) : Bool := (48 ≤ c && c ≤ 57) || (97 ≤ c && c ≤ 102)

def IsCommitment (value : Bytes) : Prop := value.length = 64 ∧ ∀ c ∈ value, isLowerHex c = true

instance : DecidablePred IsCommitment := fun value =>
  inferInstanceAs (Decidable (value.length = 64 ∧ ∀ c ∈ value, isLowerHex c = true))

/-- `sha256` returns the digest in lowercase hexadecimal. -/
def HexDigest (X : Externals) : Prop := ∀ data, IsCommitment (utf8 (X.sha256 data))

/-- What a miner establishes for a block on top of `before`. -/
structure Formed (X : Externals) (before : List Block) (b : Block) : Prop where
  canonical : PersistentWrite.canonicalize b.writeSet = .ok b.writeSet
  sorted : PersistentWrite.StrictlySorted b.writeSet
  redacted : ∀ w ∈ b.writeSet, MiningView.isPrivate w = true → ∀ value, w.op = .set value →
    IsCommitment value
  gated : b.writeSet.any MiningView.isPrivate = true →
    ∃ history, CapabilityHistory.buildFromBlocks X before = .ok history ∧
      (history.effectiveSet X b.index).isActive pdcCapabilityId = true

/-- A gate sees the history of a chain: its cache holds it, or is filled from the chain. -/
def SeesHistory (X : Externals) (chain : List Block) (gate : CommitState × List Block) : Prop :=
  ∃ history, CapabilityHistory.buildFromBlocks X chain = .ok history ∧
    (gate.1.capabilityHistory = some history ∨ gate.1.capabilityHistory = none ∧ gate.2 = chain)

variable {before : List Block} {b : Block}

lemma Formed.of_no_writes (silent : b.writeSet = []) : Formed X before b where
  canonical := by rw [silent, canonicalize_nil]
  sorted := by rw [silent]; exact .nil
  redacted := by simp [silent]
  gated := by simp [silent]

lemma computeWriteSet_form (hex : HexDigest X) {S : CommitState} {txs : List Transaction}
    {writes : List PersistentWrite} {perTx : List (List PersistentWrite)}
    (computed : S.computeWriteSet X txs = .ok (writes, perTx)) :
    canonicalize writes = .ok writes ∧
      ∀ w ∈ writes, MiningView.isPrivate w = true → ∀ value, w.op = .set value →
        IsCommitment value := by
  unfold computeWriteSet at computed
  split at computed
  · obtain ⟨rfl, -⟩ : [] = writes ∧ _ := by simpa using computed
    exact ⟨canonicalize_nil, by simp⟩
  · obtain ⟨contributions, -, computed⟩ := bind_eq_ok.mp computed
    obtain ⟨canonical, ok, computed⟩ := bind_eq_ok.mp computed
    obtain ⟨rfl, -⟩ : canonical.map (blockForm X) = writes ∧ _ := by
      simpa [pure, Except.pure] using computed
    refine ⟨canonicalize_blockForm (canonicalize_idem ok), ?_⟩
    intro w mem hidden value set
    obtain ⟨v, -, rfl⟩ := mem_map.mp mem
    unfold blockForm at hidden set
    split at set
    · obtain rfl := WriteOp.set.inj set
      exact hex _
    · rename_i other
      cases visibility : v.visibility with
      | pub => simp [isPrivate, visibility] at hidden
      | pdc collection => exact absurd visibility (other _ _ set)

/-- What a miner commits has the form, if its private-data gate sees the history of the chain. -/
theorem formed_of_committed (hex : HexDigest X) {v : MiningView}
    (committed : v.committed X = some b) (sees : SeesHistory X before v.gating) :
    Formed X before b := by
  obtain ⟨p, writes, perTx, -, computed, passes, -, attested, -⟩ := committed_eq_some committed
  have spec := attest_spec attested
  have same : b.writeSet = writes := spec.writeSet
  have index : b.index = p.index := spec.index
  obtain ⟨canonical, redacted⟩ := computeWriteSet_form hex computed
  rw [← same] at canonical redacted passes
  refine ⟨canonical, (canonicalize_self_iff.mp canonical).2, redacted, ?_⟩
  intro hidden
  obtain ⟨history, built, cache⟩ := sees
  refine ⟨history, built, ?_⟩
  have active : MiningView.capabilityActive X v.gating.1 v.gating.2 p.index pdcCapabilityId =
      true := by
    simpa [pdcRefused, hidden] using passes
  rw [index]
  obtain cached | ⟨empty, chain⟩ := cache
  · simpa [capabilityActive, capabilityEffectiveSet, cached] using active
  · simpa [capabilityActive, capabilityEffectiveSet, empty, chain, built] using active

/-- The block writes nothing, or some miner whose gate sees the history of the chain commits it. -/
def HonestlyMined (X : Externals) (before : List Block) (b : Block) : Prop :=
  b.writeSet = [] ∨ ∃ v : MiningView, SeesHistory X before v.gating ∧ v.committed X = some b

/-- Blocks of peers are honestly mined, and the node's own gate sees the history of its chain. -/
def HonestInput (X : Externals) (L : Ledger) : LedgerInput B → Prop
  | .mine view => SeesHistory X L.chain view.gating
  | input => AddsOnly X (HonestlyMined X) L input

lemma HonestInput.addsOnly (hex : HexDigest X) {L : Ledger} {input : LedgerInput B}
    (honest : HonestInput X L input) : AddsOnly X (Formed X) L input := by
  have formed (before : List Block) (b : Block) : HonestlyMined X before b → Formed X before b := by
    rintro (silent | ⟨v, sees, committed⟩)
    · exact .of_no_writes silent
    · exact formed_of_committed hex committed sees
  cases input with
  | mine view =>
    intro b committed
    exact formed_of_committed hex committed honest
  | submit | prepare | block | chain | suffix => exact AddsOnly.mono formed honest

/-- In every run with honest miners from a new ledger, every block of the chain has a canonical and
redacted write set, and private writes only while the capability is active. -/
theorem writes_formed_along_runs (hex : HexDigest X) {clock : Nat → Nat} {fuel difficulty : Nat}
    {L t : Ledger} (created : Ledger.new X clock fuel difficulty = some L)
    (run : Reaches (Ledger.Step X) (HonestInput X (B := B)) L t) : EachBlock (Formed X) t.chain := by
  refine run.invariant (I := fun L => EachBlock (Formed X) L.chain) ?_ ?_
  · rintro s input _ each honest rfl
    exact each.receive (honest.addsOnly hex)
  · obtain ⟨genesis, mined, rfl⟩ := Option.map_eq_some_iff.mp created
    intro h b placed
    obtain rfl : genesis = b := by
      cases h with
      | zero => simpa using placed
      | succ h => simp at placed
    exact .of_no_writes (mine_spec mined).writeSet

noncomputable def hexExternals : Externals :=
  { Externals.plain 0 with
    sha256 := fun _ => String.ofList (List.replicate 64 '0')
    base64Decode := fun _ => some [] }

lemma hexDigest_sample : HexDigest hexExternals := by
  have text : utf8 (String.ofList (List.replicate 64 '0')) = List.replicate 64 48 := by
    decide +kernel
  have commitment : IsCommitment (List.replicate 64 48) := ⟨length_replicate, by
    intro c mem
    rw [eq_of_mem_replicate mem]
    decide⟩
  intro data
  exact text.symm ▸ commitment

def wildWrites : List PersistentWrite :=
  [⟨"main", "notes", "b", .set [1], .pdc "secrets"⟩, ⟨"main", "notes", "a", .set [2], .pub⟩]

variable (X)

def wildBlock : Block :=
  Block.withWriteSet X 0 ((sealedGenesis X).index + 1) [] (sealedGenesis X).hash wildWrites

/-- A new node appends a peer's block whose writes are out of order, with a private value in the
open while the capability is inactive. -/
theorem wild_block_appended :
    let L := (freshPool hexExternals).ledger
    let b := wildBlock hexExternals
    (L.receive hexExternals (.block (undisturbedView L (openState (symbolic 48))) b)).chain =
        [sealedGenesis hexExternals, b] ∧
      ¬PersistentWrite.StrictlySorted b.writeSet ∧
      (∃ w ∈ b.writeSet, MiningView.isPrivate w = true ∧ w.op = .set [1] ∧ ¬IsCommitment [1]) ∧
      ¬∃ history, buildFromBlocks hexExternals [sealedGenesis hexExternals] =
          .ok history ∧
        (history.effectiveSet hexExternals b.index).isActive pdcCapabilityId = true := by
  have chains : (wildBlock hexExternals).chainsTo hexExternals (sealedGenesis hexExternals) =
      .ok () := withWriteSet_chainsTo _ _ _ _ _
  have admitted := fresh_admits (B := symbolic 48) chains rfl rfl rfl
  refine ⟨?_, ?_, ?_, ?_⟩
  · simp [receive, receiveBlock, admitted, freshPool_append chains]
  · have order : PersistentWrite.scopeLe ⟨"main", "notes", "b", .set [1], .pdc "secrets"⟩
        ⟨"main", "notes", "a", .set [2], .pub⟩ = false := by decide
    simp [PersistentWrite.StrictlySorted, wildBlock, withWriteSet, wildWrites, order]
  · exact ⟨_, mem_cons_self, rfl, rfl, by decide⟩
  · rintro ⟨history, built, active⟩
    obtain rfl : (⟨[]⟩ : CapabilityHistory) = history := by
      simpa [buildFromBlocks, Library.runInPlace, validateBlock,
        sealedGenesis, genesisBlock] using built
    simp [effectiveSet, CapabilitySet.isActive, CapabilitySet.genesis,
      genesisCapabilities, lookupCapability, capabilityV1, CapabilitySet.insert,
      stateCommitmentCapabilityId, pdcCapabilityId] at active

def pdcLedger : Ledger :=
  { (freshPool X).ledger with chain := [sealedGenesis X, activating X "pdc"] }

def runTx : Transaction := ⟨"run", 0, .contractExecution ⟨"c", "", "", "", "", 0, 0, ""⟩, []⟩

def secret : PersistentWrite := ⟨"main", "notes", "b", .set [1], .pdc "secrets"⟩

def secretView : MiningView where
  preparing := { pdcLedger X with pendingTransactions := [runTx] }
  executing := ⟨some fun _ _ _ => .ok [secret],
    fun _ => some ⟨"c", "", "", ⟨0, 0, 0, 0, none, "", false⟩, some ""⟩, ∅, none, ⟨[]⟩, none⟩
  gating := (⟨none, fun _ => none, ∅, none, ⟨[]⟩, none⟩, (pdcLedger X).chain)
  endorsing := (⟨none, fun _ => none, ∅, none, ⟨[]⟩, none⟩, (pdcLedger X).chain)
  attesting := (⟨none, fun _ => none, ∅, none, ⟨[]⟩, none⟩, (pdcLedger X).chain, false)
  voteRound := .error .emptyLedger
  now := 0
  clock := id
  fuel := 0
  finishing := pdcLedger X

lemma validateBlock_activating_pdc :
    validateBlock X ⟨[]⟩ (activating X "pdc") =
      (⟨[sampleActivation X "pdc"]⟩, .ok ()) :=
  validateBlock_activating X (by decide)

lemma buildFromBlocks_pdcLedger :
    buildFromBlocks X (pdcLedger X).chain = .ok ⟨[sampleActivation X "pdc"]⟩ := by
  have genesis : validateBlock X ⟨[]⟩ (sealedGenesis X) = (⟨[]⟩, .ok ()) := rfl
  simp [buildFromBlocks, pdcLedger, Library.runInPlace, genesis, validateBlock_activating_pdc]

def secretBlock : Block :=
  Block.withWriteSet X 0 2 [runTx] (activating X "pdc").hash [secret.blockForm X]

lemma secretBlock_commits :
    ((pdcLedger X).commitMinedBlock X (secretBlock X) (activating X "pdc").hash).2 = .ok true := by
  have genesis : validateBlock X ⟨[]⟩ (sealedGenesis X) = (⟨[]⟩, .ok ()) := rfl
  have capability (h : CapabilityHistory) :
      validateBlock X h (secretBlock X) = (h, .ok ()) := rfl
  have policies : PolicyHistory.buildFromBlocks [sealedGenesis X, activating X "pdc"] = .ok ⟨[]⟩ :=
    rfl
  have policy (h : PolicyHistory) : (h.validateBlock (secretBlock X)).2 = .ok () := rfl
  simp [pdcLedger, freshPool, commitMinedBlock, commitGate, foldCapability,
    Library.runInPlace, foldBlock, genesis, validateBlock_activating_pdc, capability,
    policies, policy]

variable {X}

lemma secretView_committed {X : Externals} (decodes : X.base64Decode "" = some []) :
    (secretView X).committed X = some (secretBlock X) := by
  have built := buildFromBlocks_pdcLedger X
  have active := effectiveSet_activation X "pdc" (le_refl 2)
  have prepared : (secretView X).preparing.prepareMining =
      ((secretView X).preparing.prepareMining.1,
        .ok ⟨2, (activating X "pdc").hash, [runTx], 0⟩) := rfl
  have writes : (secretView X).executing.computeWriteSet X [runTx] =
      .ok ([secret.blockForm X], [[secret]]) := by
    have canonical : canonicalize [secret] = .ok [secret] :=
      canonicalize_singleton.mpr (by constructor <;> decide)
    simp [computeWriteSet, secretView, contribution, runTx, decodes,
      canonical, bind, Except.bind, pure, Except.pure]
  have passes : (secretView X).pdcRefused X 2 [secret.blockForm X] = false := by
    simp [pdcRefused, capabilityActive, capabilityEffectiveSet,
      secretView, built, active, pdcCapabilityId]
  have candidate : (secretView X).candidate X ⟨2, (activating X "pdc").hash, [runTx], 0⟩
      [secret.blockForm X] = secretBlock X := rfl
  have endorsed : (secretView X).endorsementGate X (secretBlock X) [[secret]] = .ok () := rfl
  have resealed : ({ secretBlock X with hash := (secretBlock X).calculateHash X } : Block) =
      secretBlock X := rfl
  have attested : (secretView X).attest X ⟨2, (activating X "pdc").hash, [runTx], 0⟩
      (secretBlock X) = some (.ok (secretBlock X)) := by
    simp [attest, driven, secretView, mine_zero, resealed]
  have finishing : (secretView X).finishing = pdcLedger X := rfl
  rw [committed, prepared]
  simp only [writes, passes, Bool.false_eq_true, if_false, candidate, endorsed, attested,
    finishing, secretBlock_commits]

/-- A miner commits the redacted value once the capability is active. -/
theorem secret_block_formed : ∃ t : Ledger,
    t.chain = (pdcLedger hexExternals).chain ++ [secretBlock hexExternals] ∧
      EachBlock (Formed hexExternals) t.chain := by
  have chains : (activating hexExternals "pdc").chainsTo hexExternals (sealedGenesis hexExternals) =
      .ok () := after_chainsTo _ _ _
  have admitted := fresh_admits (B := symbolic 48) chains rfl rfl
    (congrArg Prod.snd (validateBlock_activating_pdc hexExternals))
  have first : Ledger.Step hexExternals (freshPool hexExternals).ledger
      (.block (undisturbedView (freshPool hexExternals).ledger (openState (symbolic 48)))
        (activating hexExternals "pdc")) (pdcLedger hexExternals) := by
    simp [Ledger.Step, receive, receiveBlock, admitted, freshPool_append chains, pdcLedger]
  have run : Reaches (Ledger.Step hexExternals) (HonestInput hexExternals)
      (freshPool hexExternals).ledger
      ((pdcLedger hexExternals).receive hexExternals
        (.mine (secretView hexExternals) : LedgerInput (symbolic 48))) :=
    ((Reaches.refl _).tail _ (fun _ _ => .inl rfl) first).tail (.mine (secretView hexExternals))
      ⟨_, buildFromBlocks_pdcLedger _, .inr ⟨rfl, rfl⟩⟩ rfl
  refine ⟨_, ?_, writes_formed_along_runs hexDigest_sample (new_zero _) run⟩
  have committed : ({ secretView hexExternals with finishing := pdcLedger hexExternals } :
      MiningView).committed hexExternals = some (secretBlock hexExternals) :=
    secretView_committed rfl
  rw [receive_mine_chain, committed, Option.toList_some]

end GlassChain
