import GlassChain.Core.PolicyScopes
import GlassChain.Network.ChainRules

/-!
# The full rules

`validate_chain` and the policy replay are the rules for a whole chain. Each way a chain changes
checks its own part of them: a restart leaves out both replays and the genesis block's work, a
replacement the policies, a block message the policies and, when its capability view lags, the
replay. The rules hold in every chain of the runs in which the blocks of peers keep the same-block
policy rule, the views are in step with the chain, and a restart finds what the node had held.
-/

namespace GlassChain

open Library PolicyHistory List Ledger

variable {B : Multisig} {X : Externals}

def PolicyOk (b : Block) : Prop := ((⟨[]⟩ : PolicyHistory).validateBlock b).2 = .ok ()

namespace PolicyHistory

lemma validateBlock_ok_iff {h : PolicyHistory} {b : Block} :
    (h.validateBlock b).2 = .ok () ↔ PolicyOk b := by
  rw [PolicyOk, validateBlock_snd_eq_ok, validateBlock_snd_eq_ok]

end PolicyHistory

section Replays

variable {chain : List Block}

/-- Both replays of a chain succeed exactly when every block is admissible after the ones before. -/
theorem eachBlock_admissible_iff : EachBlock (AdmissibleNext X) chain ↔
    (∃ h, CapabilityHistory.buildFromBlocks X chain = .ok h) ∧
      ∃ p, buildFromBlocks chain = .ok p := by
  induction chain using List.reverseRecOn with
  | nil => exact ⟨fun _ => ⟨⟨_, rfl⟩, ⟨_, rfl⟩⟩, fun _ h b placed => by simp at placed⟩
  | append_singleton front b ih =>
    simp only [CapabilityHistory.buildFromBlocks_eq_ok, buildFromBlocks_eq_ok,
      runInPlace_concat_eq_ok] at ih ⊢
    constructor
    · intro each
      obtain ⟨-, h, p, built, valid, policies, policy⟩ := each.of_snoc
      refine ⟨⟨(h.validateBlock X b).1, h, ?_, ?_⟩, (p.validateBlock b).1, p, ?_, ?_⟩
      · exact CapabilityHistory.buildFromBlocks_eq_ok.mp built
      · rw [← valid]
      · exact buildFromBlocks_eq_ok.mp policies
      · rw [← policy]
    · rintro ⟨⟨h', h, built, valid⟩, p', p, policies, policy⟩
      refine (ih.mpr ⟨⟨h, built⟩, p, policies⟩).snoc ⟨h, p, ?_, ?_, ?_, ?_⟩
      · exact CapabilityHistory.buildFromBlocks_eq_ok.mpr built
      · rw [valid]
      · exact buildFromBlocks_eq_ok.mpr policies
      · rw [policy]

lemma policies_ok_iff : (∃ p, buildFromBlocks chain = .ok p) ↔
    ∀ b ∈ chain, PolicyOk b := by
  induction chain using List.reverseRecOn with
  | nil => exact ⟨by simp, fun _ => ⟨_, rfl⟩⟩
  | append_singleton front b ih =>
    simp only [buildFromBlocks_eq_ok, runInPlace_concat_eq_ok] at ih ⊢
    simp only [mem_append, mem_singleton, or_imp, forall_and, forall_eq, ← ih]
    constructor
    · rintro ⟨p', p, built, valid⟩
      exact ⟨⟨p, built⟩, validateBlock_ok_iff.mp (congrArg Prod.snd valid)⟩
    · rintro ⟨⟨p, built⟩, ok⟩
      refine ⟨(p.validateBlock b).1, p, built, ?_⟩
      rw [← validateBlock_ok_iff.mpr ok]

/-- The next block of a chain whose replays succeed. -/
theorem admissibleNext_of {h : CapabilityHistory} {b : Block}
    (each : EachBlock (AdmissibleNext X) chain)
    (built : CapabilityHistory.buildFromBlocks X chain = .ok h)
    (valid : (h.validateBlock X b).2 = .ok ()) (policy : PolicyOk b) :
    AdmissibleNext X chain b := by
  obtain ⟨-, p, policies⟩ := eachBlock_admissible_iff.mp each
  exact ⟨h, p, built, valid, policies, validateBlock_ok_iff.mpr policy⟩

end Replays

variable {difficulty : Nat}

lemma checkLinks_eq_ok {previous : Block} {rest : List Block} :
    Ledger.checkLinks X difficulty previous rest = .ok () ↔
      windowsOk X difficulty previous rest = true := by
  induction rest generalizing previous with
  | nil => simp [checkLinks, windowsOk]
  | cons b rest ih =>
    simp only [checkLinks, windowsOk, bind_eq_ok, require_eq_ok, Unique.exists_iff, ih,
      Bool.and_eq_true, isOk_iff, and_assoc]

/-- A block admissible after the ones before it; a first block has work and no transactions. -/
def RuledNext (X : Externals) (difficulty : Nat) (before : List Block) (b : Block) : Prop :=
  AdmissibleNext X before b ∧
    (before = [] → b.transactions = [] ∧ b.hasValidPow difficulty = true)

lemma eachBlock_ruled_iff {chain : List Block} :
    EachBlock (RuledNext X difficulty) chain ↔ EachBlock (AdmissibleNext X) chain ∧
      ∀ genesis, chain.head? = some genesis →
        genesis.transactions = [] ∧ genesis.hasValidPow difficulty = true := by
  constructor
  · intro each
    refine ⟨fun h b placed => (each h b placed).1, fun genesis first => ?_⟩
    exact (each 0 genesis (by rwa [head?_eq_getElem?] at first)).2 rfl
  · rintro ⟨each, start⟩ h b placed
    refine ⟨each h b placed, fun empty => ?_⟩
    have inside := (List.getElem?_eq_some_iff.mp placed).1
    obtain rfl : h = 0 := by
      have := congrArg List.length empty
      simp only [length_take, length_nil] at this
      omega
    exact start b (by rwa [head?_eq_getElem?])

variable {L : Ledger}

/-- An admitted chain whose blocks are ruled passes the full rules. -/
theorem full_of_ruled (admitted : Admitted X L.difficulty L.chain)
    (each : EachBlock (RuledNext X L.difficulty) L.chain) :
    L.validateChain X = .ok () ∧ ∃ p, buildFromBlocks L.chain = .ok p := by
  have replays := eachBlock_admissible_iff.mp fun h b placed => (each h b placed).1
  obtain ⟨⟨h, built⟩, policies⟩ := replays
  refine ⟨?_, policies⟩
  rcases whole : L.chain with _ | ⟨genesis, rest⟩
  · exact absurd whole admitted.linked.ne_nil
  rw [whole] at admitted each built
  have work := ((each 0 genesis rfl).2 rfl).2
  have valid := (admitted.linked.head_of rfl).2
  simp only [validateChain, whole, built, checkLinks_eq_ok.mpr admitted.windowsOk, valid,
    work, require]
  rfl

/-- What the commit gate passes is admissible, if the capability index is exact. -/
theorem Ledger.admissible_of_commit {b : Block} {expectedPrevHash : String}
    (exact_ : HistoryExact X L) (appended : (L.commitMinedBlock X b expectedPrevHash).2 = .ok true) :
    AdmissibleNext X L.chain b := by
  obtain ⟨-, gate⟩ := commitMinedBlock_eq_ok_true.mp appended
  obtain ⟨F, h, fold, replayed, valid, p, policies, ruled⟩ := commitGate_eq_ok.mp gate
  obtain ⟨h', index, built⟩ := exact_ F fold
  have same : F.chain = L.chain := by
    simpa [fold] using foldCapability_chain (X := X) (L := L)
  rw [foldCommittedIds_capabilityHistory, replayed, Option.some.injEq] at index
  rw [foldCommittedIds_chain, same, ← index] at built
  exact ⟨h, p, built, valid, policies, ruled⟩

/-- A peer's block keeps the policy rules, and was checked against the history of the chain. -/
def InStep (X : Externals) (L : Ledger) (v : BlockView B) (b : Block) : Prop :=
  v.verdict X b = .append → L.extendsTip X b = true →
    CapabilityHistory.buildFromBlocks X L.chain = .ok (v.history X) ∧ PolicyOk b

lemma run_of_candidate {h : CapabilityHistory} {previous : Block} {rest : List Block}
    (ok : Ledger.candidateBlocksOk X difficulty h previous rest = true) :
    ∃ h', runInPlace (CapabilityHistory.validateBlock X) h rest = (h', .ok ()) := by
  induction rest generalizing h previous with
  | nil => exact ⟨h, rfl⟩
  | cons b rest ih =>
    simp only [candidateBlocksOk, Bool.and_eq_true] at ok
    rcases valid : h.validateBlock X b with ⟨h', e | ⟨⟩⟩
    · simp [valid] at ok
    · rw [valid] at ok
      rw [runInPlace_cons_ok valid]
      exact ih ok.2

lemma ruled_of_adopted (injective : Function.Injective X.contentHash) (linked : Linked X L.chain)
    (each : EachBlock (RuledNext X L.difficulty) L.chain) {candidate : List Block}
    (adopts : L.adopts X candidate = true) (policies : ∀ b ∈ candidate, PolicyOk b) :
    EachBlock (RuledNext X L.difficulty) candidate := by
  cases candidate with
  | nil => simp [Ledger.adopts] at adopts
  | cons genesis rest =>
    obtain ⟨old, first, content⟩ := Admitted.genesis_content injective linked adopts
    have silent : genesis.transactions = [] :=
      (congrArg BlockContent.transactions content).symm.trans
        ((eachBlock_ruled_iff.mp each).2 old first).1
    simp only [Ledger.adopts, Bool.and_eq_true] at adopts
    obtain ⟨-, ⟨⟨-, ok⟩, -⟩, work⟩ := adopts
    obtain ⟨h, run⟩ := run_of_candidate ok
    -- the replay of the whole chain starts with a block that changes nothing
    have start : CapabilityHistory.validateBlock X ⟨[]⟩ genesis = (⟨[]⟩, .ok ()) := by
      simp [CapabilityHistory.validateBlock, silent]
    have built : CapabilityHistory.buildFromBlocks X (genesis :: rest) = .ok h := by
      rw [CapabilityHistory.buildFromBlocks_eq_ok, runInPlace_cons_ok start, run]
    refine eachBlock_ruled_iff.mpr ⟨eachBlock_admissible_iff.mpr ⟨⟨h, built⟩, ?_⟩, ?_⟩
    · exact policies_ok_iff.mpr policies
    · rintro _ ⟨⟩
      exact ⟨silent, work⟩

lemma policyOk_of_no_transactions {b : Block} (silent : b.transactions = []) : PolicyOk b := by
  have updates : pendingUpdates b = [] := by
    simp [pendingUpdates, silent]
  have clash : (writtenKeys b).find? (changedKeys b).contains = none := by
    simp [changedKeys, updates]
  simp only [PolicyOk, validateBlock, clash, updates, runInPlace_nil]

lemma ruled_new {clock : Nat → Nat} {fuel : Nat}
    (created : Ledger.new X clock fuel difficulty = some L) :
    EachBlock (RuledNext X difficulty) L.chain := by
  obtain ⟨genesis, mined, rfl⟩ := Option.map_eq_some_iff.mp created
  have spec := Block.mine_spec mined
  have silent : genesis.transactions = [] := spec.transactions
  have start : CapabilityHistory.validateBlock X ⟨[]⟩ genesis = (⟨[]⟩, .ok ()) := by
    simp [CapabilityHistory.validateBlock, silent]
  refine eachBlock_ruled_iff.mpr ⟨eachBlock_admissible_iff.mpr ⟨⟨⟨[]⟩, ?_⟩, ?_⟩, ?_⟩
  · rw [CapabilityHistory.buildFromBlocks_eq_ok, runInPlace_cons_ok start, runInPlace_nil]
  · exact policies_ok_iff.mpr (by simpa using policyOk_of_no_transactions silent)
  · rintro _ ⟨⟩
    exact ⟨silent, spec.pow⟩

namespace Timeline

/-- What keeps the rules that a path does not check: the capability index of a committing ledger is
exact, blocks of peers are in step and keep the policy rules, and a restart finds a part of a chain
the node held since it was last started. -/
def KeepsRules (X : Externals) (s : Timeline) : NodeInput B → Prop
  | .receive (.mine _) => HistoryExact X s.ledger
  | .receive (.block v b) => InStep X s.ledger v b
  | .receive (.suffix blocks) => EachPeerBlock X (InStep X) s.ledger blocks
  | .receive (.chain v blocks) => replacesChain X s.ledger v blocks = true → ∀ b ∈ blocks, PolicyOk b
  | .receive _ => True
  | .restart store key fresh => ∀ chain, store.storedChain = some chain →
      restorable X key fresh.difficulty chain = true → ∃ M ∈ s.ledger :: s.past, chain <+: M.chain

def Ruled (X : Externals) (difficulty : Nat) (s : Timeline) : Prop :=
  s.Sound X difficulty ∧ ∀ M ∈ s.ledger :: s.past, EachBlock (RuledNext X difficulty) M.chain

variable {s t : Timeline} {difficulty : Nat} {L : Ledger}

/-- On a chain with a first block a ruled block is an admissible one. -/
theorem ruledNext_of {b : Block} (nonempty : L.chain ≠ []) (next : AdmissibleNext X L.chain b) :
    RuledNext X difficulty L.chain b :=
  ⟨next, fun empty => absurd empty nonempty⟩

/-- A peer's block in step adds a ruled block, -/
theorem adds_of_inStep {v : BlockView B} {b : Block} (nonempty : L.chain ≠ [])
    (each : EachBlock (RuledNext X difficulty) L.chain) (inStep : InStep X L v b) :
    AddsBlock X (RuledNext X difficulty) L v b := by
  intro admitted extending
  obtain ⟨built, policy⟩ := inStep admitted extending
  have capability := (BlockView.verdict_eq_append.mp admitted).1.capability
  exact ruledNext_of nonempty (admissibleNext_of (eachBlock_ruled_iff.mp each).1 built
    (isOk_iff.mp capability) policy)

/-- and so does every block of a suffix. -/
theorem adds_of_suffix {blocks : List (BlockView B × Block)} (nonempty : L.chain ≠ [])
    (each : EachBlock (RuledNext X difficulty) L.chain)
    (inStep : EachPeerBlock X (InStep X) L blocks) :
    EachPeerBlock X (AddsBlock X (RuledNext X difficulty)) L blocks := by
  induction blocks generalizing L with
  | nil => trivial
  | cons item rest ih =>
    have adds := adds_of_inStep nonempty each inStep.1
    refine ⟨adds, ih ?_ (each.receiveBlock adds) inStep.2⟩
    obtain e | ⟨-, -, e⟩ := receiveBlock_cases (X := X) (L := L) item.1 item.2 <;> rw [e]
    · exact nonempty
    · simp

/-- What each input adds in a step that keeps the rules. -/
theorem Ruled.adds (injective : Function.Injective X.contentHash) {input : LedgerInput B}
    (ruled : s.Ruled X difficulty) (keeps : s.KeepsRules X (.receive input)) :
    AddsOnly X (RuledNext X difficulty) s.ledger input := by
  obtain ⟨sound, each⟩ := ruled
  obtain ⟨rfl, admitted⟩ := sound s.ledger (by simp)
  have ruled := each s.ledger (by simp)
  have nonempty := admitted.linked.ne_nil
  cases input with
  | submit | prepare => trivial
  | mine v =>
    intro b committed
    obtain ⟨p, _, _, -, -, -, -, -, appended⟩ := MiningView.committed_eq_some committed
    exact ruledNext_of nonempty (admissible_of_commit keeps appended)
  | block v b => exact adds_of_inStep nonempty ruled keeps
  | chain v blocks =>
    intro replaces
    have policies := keeps replaces
    simp only [replacesChain, Bool.and_eq_true] at replaces
    exact ruled_of_adopted injective admitted.linked ruled replaces.2 policies
  | suffix blocks => exact adds_of_suffix nonempty ruled keeps

lemma Ruled.next (injective : Function.Injective X.contentHash) {input : NodeInput B}
    (ruled : s.Ruled X difficulty) (coherent : s.Coherent X input) (keeps : s.KeepsRules X input) :
    (s.next X input).Ruled X difficulty := by
  refine ⟨ruled.1.next injective coherent, ?_⟩
  cases input with
  | receive input =>
    refine forall_mem_cons.mpr ⟨?_, ruled.2⟩
    exact (ruled.2 s.ledger (by simp)).receive (ruled.adds injective keeps)
  | restart store key fresh =>
    obtain ⟨clock, fuel, created⟩ := coherent
    rw [(ruled.1 s.ledger (by simp)).1] at created
    refine forall_mem_cons.mpr ⟨?_, by simp [Timeline.next]⟩
    obtain ⟨e, -⟩ | ⟨chain, stored, ok, e⟩ := restoreLedger_cases X key store fresh <;>
      simp only [Timeline.next, e]
    · exact ruled_new created
    · obtain ⟨M, held, part⟩ := keeps chain stored ok
      exact (ruled.2 M held).restrict part

/-- In every run of coherent inputs that keep the rules, from a new ledger, the chain passes
`validate_chain` and the policy replay. -/
theorem full_rules_along_runs (injective : Function.Injective X.contentHash) {clock : Nat → Nat}
    {fuel : Nat} (created : Ledger.new X clock fuel difficulty = some L)
    (run : Reaches (Timeline.Step X (B := B))
      (fun s input => s.Coherent X input ∧ s.KeepsRules X input) ⟨L, []⟩ t) :
    t.ledger.validateChain X = .ok () ∧
      ∃ policies, buildFromBlocks t.ledger.chain = .ok policies := by
  have ruled : t.Ruled X difficulty := by
    refine run.invariant (I := Timeline.Ruled X difficulty) ?_ ?_
    · rintro s input _ ruled ⟨coherent, keeps⟩ rfl
      exact ruled.next injective coherent keeps
    · have start : ∀ M ∈ [L], M = L := by simp
      refine ⟨fun M mem => ?_, fun M mem => ?_⟩
      · exact start M mem ▸ Admitted.new created
      · exact start M mem ▸ ruled_new created
  obtain ⟨rfl, admitted⟩ := ruled.1 t.ledger (by simp)
  exact full_of_ruled admitted (ruled.2 t.ledger (by simp))

def policyBlock (X : Externals) (writes : List PersistentWrite) : Block :=
  Block.withWriteSet X 0 ((sealedGenesis X).index + 1)
    [⟨"policy", 0, .policyUpdate ⟨"main", "notes",
      ⟨.signedBy ⟨"owner"⟩, none, none, [("a", .signedBy ⟨"owner"⟩)]⟩⟩, []⟩]
    (sealedGenesis X).hash writes

def policyInput (B : Multisig) (X : Externals) (writes : List PersistentWrite) : NodeInput B :=
  .receive (.block (undisturbedView (freshPool X).ledger (openState B)) (policyBlock X writes))

lemma fresh_takes_policyBlock (X : Externals) (writes : List PersistentWrite) :
    Timeline.Step X ⟨(freshPool X).ledger, []⟩ (policyInput B X writes)
      ⟨{ (freshPool X).ledger with chain := [sealedGenesis X, policyBlock X writes] },
        [(freshPool X).ledger]⟩ := by
  have chains : (policyBlock X writes).chainsTo X (sealedGenesis X) = .ok () :=
    Block.withWriteSet_chainsTo _ _ _ _ _
  have admitted := fresh_admits (B := B) chains rfl rfl rfl
  simp only [Timeline.Step, Timeline.next, policyInput, receive, receiveBlock, admitted,
    freshPool_append chains]

/-- A peer's block that changes the policy of a note and writes the note: it is appended, and the
policy replay of the chain fails. -/
theorem clashing_policy_appended : ∃ (L : Ledger) (t : Timeline),
    Ledger.new (.plain 0) id 0 0 = some L ∧
      Reaches (Timeline.Step (.plain 0)) (Timeline.Coherent (.plain 0) (B := Multisig.symbolic 48))
        ⟨L, []⟩ t ∧
      ¬∃ policies, buildFromBlocks t.ledger.chain = .ok policies := by
  have taken := fresh_takes_policyBlock (B := Multisig.symbolic 48) (.plain 0)
    [⟨"main", "notes", "a", .set [1], .pub⟩]
  refine ⟨_, _, new_zero _, (Reaches.refl _).tail (policyInput _ _ _) rfl taken, ?_⟩
  rw [policies_ok_iff]
  intro all
  have clash := all (policyBlock (.plain 0) [⟨"main", "notes", "a", .set [1], .pub⟩]) (by simp)
  cases clash

/-- Without the write the chain passes the full rules. -/
theorem policy_block_passes : ∃ t : Timeline,
    t.ledger.chain = [sealedGenesis (.plain 0), policyBlock (.plain 0) []] ∧
      t.ledger.validateChain (.plain 0) = .ok () ∧
      ∃ policies, buildFromBlocks t.ledger.chain = .ok policies := by
  have taken := fresh_takes_policyBlock (B := Multisig.symbolic 48) (.plain 0) []
  have inStep : InStep (.plain 0) (freshPool (.plain 0)).ledger
      (undisturbedView (freshPool (.plain 0)).ledger (openState (Multisig.symbolic 48)))
      (policyBlock (.plain 0) []) := fun _ _ => ⟨rfl, rfl⟩
  exact ⟨_, rfl, full_rules_along_runs (Externals.plain_contentHash_injective 0) (new_zero _)
    ((Reaches.refl _).tail (policyInput _ _ _) ⟨rfl, inStep⟩ taken)⟩

end Timeline

end GlassChain
