import GlassChain.Network.Storage

/-!
# What every held chain satisfies

A node's ledger changes by the inputs of `Ledger.receive` and by restarts. Whatever they are, the
chain stays linked, its genesis block names no predecessor, and every later block has Proof of Work
or a structurally matching certificate: the rules a restart checks before it looks at validator
sets. A run remembers the ledgers since the last restart, because a miner commits a block it
prepared on an earlier one.
-/

namespace GlassChain

open Library List Ledger Option Block

variable {B : Multisig} {X : Externals} {difficulty : Nat}

/-- Linked, without a predecessor, and with consensus evidence for every block after genesis. -/
structure Admitted (X : Externals) (difficulty : Nat) (chain : List Block) : Prop where
  linked : Linked X chain
  start : ∀ genesis, chain.head? = some genesis → genesis.previousHash = "0"
  evidence : ∀ b ∈ chain.tail, Ledger.blockConsensusAdmissible b difficulty = true

namespace Admitted

variable {chain : List Block} {tip b genesis : Block}

lemma single (index : genesis.index = 0) (valid : genesis.isValid X = true)
    (start : genesis.previousHash = "0") : Admitted X difficulty [genesis] :=
  ⟨.genesis index valid, by simp [start], by simp⟩

lemma snoc (h : Admitted X difficulty chain) (last : chain.getLast? = some tip)
    (next : b.chainsTo X tip = .ok ())
    (evidence : Ledger.blockConsensusAdmissible b difficulty = true) :
    Admitted X difficulty (chain ++ [b]) where
  linked := h.linked.snoc last next
  start := by
    intro genesis first
    rw [head?_append_of_ne_nil _ h.linked.ne_nil] at first
    exact h.start genesis first
  evidence := by
    intro c mem
    rw [tail_append_of_ne_nil h.linked.ne_nil, mem_append] at mem
    rcases mem with old | new
    · exact h.evidence c old
    · rwa [mem_singleton.mp new]

/-- The window check of a restart extends an admitted chain. -/
theorem windows {rest : List Block} (h : Admitted X difficulty chain)
    (last : chain.getLast? = some tip) (ok : windowsOk X difficulty tip rest = true) :
    Admitted X difficulty (chain ++ rest) := by
  induction rest generalizing chain tip with
  | nil => simpa using h
  | cons b rest ih =>
    simp only [windowsOk, Bool.and_eq_true, isOk_iff] at ok
    obtain ⟨⟨next, evidence⟩, later⟩ := ok
    simpa using ih (h.snoc last next evidence) (by simp) later

end Admitted

lemma windowsOk_append {previous tip b : Block} {rest : List Block}
    (last : (previous :: rest).getLast? = some tip) :
    windowsOk X difficulty previous (rest ++ [b]) = true ↔
      windowsOk X difficulty previous rest = true ∧ b.chainsTo X tip = .ok () ∧
        Ledger.blockConsensusAdmissible b difficulty = true := by
  induction rest generalizing previous with
  | nil =>
    obtain rfl : previous = tip := by simpa using last
    simp [windowsOk, isOk_iff]
  | cons c rest ih =>
    rw [getLast?_cons_cons] at last
    simp only [cons_append, windowsOk, Bool.and_eq_true, ih last, and_assoc]

/-- The checks of a candidate for replacement include those of a restart. -/
theorem windowsOk_of_candidate {history : CapabilityHistory} {previous : Block} {rest : List Block}
    (ok : Ledger.candidateBlocksOk X difficulty history previous rest = true) :
    windowsOk X difficulty previous rest = true := by
  induction rest generalizing history previous with
  | nil => rfl
  | cons b rest ih =>
    simp only [candidateBlocksOk, Bool.and_eq_true] at ok
    obtain ⟨checks, later⟩ := ok
    split at later
    · simp only [windowsOk, Bool.and_eq_true]
      exact ⟨checks, ih later⟩
    · cases later

lemma Linked.front (chain : List Block) {b : Block} (h : Linked X (chain ++ [b]))
    (nonempty : chain ≠ []) :
    Linked X chain ∧ ∃ tip, chain.getLast? = some tip ∧ b.chainsTo X tip = .ok () := by
  generalize whole : chain ++ [b] = c at h
  cases h with
  | genesis =>
    cases chain with
    | nil => exact absurd rfl nonempty
    | cons => simp at whole
  | @snoc front tip last linked tipped next =>
    obtain ⟨rfl, rfl⟩ : chain = front ∧ b = last := by simpa using whole
    exact ⟨linked, tip, tipped, next⟩

lemma Linked.consecutive {chain : List Block} (h : Linked X chain) : Consecutive chain := by
  induction h with
  | genesis index _ =>
    rintro (_ | i) b placed
    · cases placed
      exact index
    · cases placed
  | @snoc chain tip b linked last next ih =>
    intro i c placed
    by_cases inside : i < chain.length
    · exact ih i c (by rwa [getElem?_append_left inside] at placed)
    · obtain rfl : i = chain.length := by
        have := (List.getElem?_eq_some_iff.mp placed).1
        simp only [length_append, length_singleton] at this
        omega
      obtain rfl : b = c := by simpa using placed
      rw [(chainsTo_iff.mp next).2.1, linked.length_eq last]

namespace Admitted

variable {genesis : Block} {rest : List Block}

lemma windowsOk (h : Admitted X difficulty (genesis :: rest)) :
    windowsOk X difficulty genesis rest = true := by
  obtain ⟨linked, -, evidence⟩ := h
  induction rest using List.reverseRecOn with
  | nil => rfl
  | append_singleton front b ih =>
    obtain ⟨linked, tip, last, next⟩ := Linked.front (genesis :: front) linked (by simp)
    refine (windowsOk_append last).mpr ⟨ih linked fun c mem => ?_, next, ?_⟩
    · exact evidence c (by simpa using .inl mem)
    · exact evidence b (by simp)

/-- An adopted candidate keeps the genesis content, -/
theorem genesis_content {L : Ledger} (injective : Function.Injective X.contentHash)
    (h : Linked X L.chain) (adopts : L.adopts X (genesis :: rest) = true) :
    ∃ old, L.chain.head? = some old ∧ old.content = genesis.content := by
  obtain ⟨old, first⟩ : ∃ g, L.chain.head? = some g :=
    ne_none_iff_exists'.mp (by simpa using h.ne_nil)
  simp only [Ledger.adopts, first, all_some, Bool.and_eq_true, beq_iff_eq] at adopts
  obtain ⟨-, ⟨⟨same, -⟩, valid⟩, -⟩ := adopts
  have old_valid := isValid_iff.mp (h.head_of first).2
  exact ⟨old, first, injective (old_valid.symm.trans (same.trans (isValid_iff.mp valid)))⟩

/-- so it is admitted as the old chain was. -/
theorem adopted {L : Ledger} (injective : Function.Injective X.contentHash)
    (h : Admitted X L.difficulty L.chain) {candidate : List Block}
    (adopts : L.adopts X candidate = true) : Admitted X L.difficulty candidate := by
  have linked := h.linked.adopted injective adopts
  cases candidate with
  | nil => exact absurd rfl linked.ne_nil
  | cons genesis rest =>
    obtain ⟨old, first, content⟩ := genesis_content injective h.linked adopts
    obtain ⟨index, valid⟩ := linked.head_of rfl
    have start : genesis.previousHash = "0" := by
      rw [← h.start old first]
      exact (congrArg BlockContent.previousHash content).symm
    simp only [Ledger.adopts, Bool.and_eq_true] at adopts
    obtain ⟨-, ⟨⟨-, ok⟩, -⟩, -⟩ := adopts
    exact (single index valid start).windows rfl (windowsOk_of_candidate ok)

lemma restored {s : Store} {key : B.PrivateKey} {chain : List Block}
    (stored : s.storedChain = some chain) (ok : restorable X key difficulty chain = true) :
    Admitted X difficulty chain := by
  cases chain with
  | nil => simp [restorable] at ok
  | cons genesis rest =>
    simp only [restorable, Bool.and_eq_true, beq_iff_eq] at ok
    obtain ⟨⟨⟨valid, start⟩, windows⟩, -⟩ := ok
    have index : genesis.index = 0 := s.index_of_storedChain stored
    exact (single index valid start).windows rfl windows

lemma new {clock : Nat → Nat} {fuel : Nat} {L : Ledger}
    (created : Ledger.new X clock fuel difficulty = some L) :
    L.difficulty = difficulty ∧ Admitted X difficulty L.chain := by
  obtain ⟨genesis, mined, rfl⟩ := map_eq_some_iff.mp created
  have spec := mine_spec mined
  exact ⟨rfl, single spec.index spec.valid spec.previousHash⟩

end Admitted

/-- What changes the ledger of a node, with its restarts. A restart reads a store and begins with
what `Ledger::new` gives. -/
inductive NodeInput (B : Multisig) where
  | receive (input : LedgerInput B)
  | restart (store : Store) (verifierKey : B.PrivateKey) (fresh : Ledger)

/-- The ledger of a node, and the ledgers it had since it was last started. -/
structure Timeline where
  ledger : Ledger
  past : List Ledger

def Timeline.next (X : Externals) (s : Timeline) : NodeInput B → Timeline
  | .receive input => ⟨s.ledger.receive X input, s.ledger :: s.past⟩
  | .restart store verifierKey fresh => ⟨restoreLedger X verifierKey store fresh, []⟩

def Timeline.Step (X : Externals) (s : Timeline) (input : NodeInput B) (t : Timeline) : Prop :=
  t = s.next X input

/-- The certificate a vote round returns is a proper one for the candidate it was held for. -/
def MiningView.RoundAttests (X : Externals) (v : MiningView) : Prop :=
  ∀ p writeSet c, v.preparing.prepareMining.2 = .ok p → v.voteRound = .ok c →
    c.isDegenerate = false ∧ c.validate (v.candidate X p writeSet) = .ok ()

/-- What the node's tasks have seen of its ledger is what it was: a miner prepared on the ledger of
the moment or an earlier one, a block was checked at the ledger's difficulty, and a restart is at
the same difficulty. -/
def Timeline.Coherent (X : Externals) (s : Timeline) : NodeInput B → Prop
  | .receive (.mine v) => v.preparing ∈ s.ledger :: s.past ∧ v.RoundAttests X
  | .receive (.block v _) => v.tip.difficulty = s.ledger.difficulty
  | .receive (.suffix blocks) => ∀ item ∈ blocks, item.1.tip.difficulty = s.ledger.difficulty
  | .receive _ => True
  | .restart _ _ fresh => ∃ clock fuel, Ledger.new X clock fuel s.ledger.difficulty = some fresh

/-- The evidence a block message is accepted with is evidence for a restart. -/
theorem BlockView.admissible_of_consensusValid {v : BlockView B} {b : Block}
    (valid : v.consensusValid X b = true) :
    Ledger.blockConsensusAdmissible b v.tip.difficulty = true := by
  have work (pow : b.hasValidPow v.tip.difficulty = true) :
      Ledger.blockConsensusAdmissible b v.tip.difficulty = true := by
    simp [blockConsensusAdmissible, pow]
  unfold BlockView.consensusValid at valid
  split at valid
  · rename_i c carried
    split at valid
    · rename_i checked
      rw [Bool.and_eq_true, Bool.not_eq_true'] at checked
      split at valid
      · have structural := (seq_eq_ok.mp (isOk_iff.mp valid)).1
        simp [blockConsensusAdmissible, carried, checked.2, isOk_iff.mpr structural]
      · cases valid
    · exact work valid
  · exact work valid

namespace Admitted

variable {L : Ledger}

lemma receiveBlock {v : BlockView B} {b : Block} (h : Admitted X L.difficulty L.chain)
    (same : v.tip.difficulty = L.difficulty) :
    Admitted X L.difficulty (receiveBlock X L v b).chain := by
  obtain e | ⟨admitted, extends_, e⟩ := receiveBlock_cases (X := X) (L := L) v b <;> rw [e]
  · exact h
  · have evidence := BlockView.admissible_of_consensusValid
      (BlockView.verdict_eq_append.mp admitted).2
    obtain ⟨tip, last⟩ : ∃ tip, L.chain.getLast? = some tip :=
      ne_none_iff_exists'.mp (by simpa using h.linked.ne_nil)
    have next : b.chainsTo X tip = .ok () := by
      simpa [extendsTip, last, isOk_iff] using extends_
    exact h.snoc last next (same ▸ evidence)

lemma suffix {blocks : List (BlockView B × Block)} (h : Admitted X L.difficulty L.chain)
    (same : ∀ item ∈ blocks, item.1.tip.difficulty = L.difficulty) :
    Admitted X L.difficulty (L.receive X (.suffix blocks)).chain := by
  simp only [receive]
  induction blocks generalizing L with
  | nil => exact h
  | cons item rest ih =>
    have kept := receive_difficulty (X := X) (L := L) (.block item.1 item.2)
    rw [receive] at kept
    rw [foldl_cons, ← kept]
    apply ih
    · rw [kept]
      exact h.receiveBlock (same item (by simp))
    · intro later mem
      rw [kept]
      exact same later (by simp [mem])

/-- A miner commits a block it prepared on a ledger of the run: the tip it expects still has the
index it counted from, as hashes do not collide. -/
theorem mine {v : MiningView} (injective : Function.Injective X.contentHash)
    (h : Admitted X L.difficulty L.chain)
    (prepared : v.preparing.difficulty = L.difficulty ∧ Linked X v.preparing.chain)
    (round : v.RoundAttests X) :
    Admitted X L.difficulty
      (L.chain ++ (({ v with finishing := L } : MiningView).committed X).toList) := by
  rcases committed : ({ v with finishing := L } : MiningView).committed X with _ | b
  · simpa using h
  obtain ⟨p, writeSet, perTxWrites, slice, -, -, -, attested, appended⟩ :=
    MiningView.committed_eq_some committed
  have spec := MiningView.attest_spec attested
  obtain ⟨-, tip, last, expected⟩ := commitMinedBlock_true appended
  obtain ⟨earlier, was⟩ : ∃ earlier, v.preparing.chain.getLast? = some earlier :=
    ne_none_iff_exists'.mp (by simpa using prepared.2.ne_nil)
  obtain rfl : (⟨earlier.index + 1, earlier.hash, v.preparing.slice, v.preparing.difficulty⟩ :
      Ledger.Prepared) = p := by
    simpa [prepareMining, was] using slice
  have content := h.linked.tip_content_eq injective prepared.2 last was expected
  have index : tip.index = earlier.index := congrArg BlockContent.index content
  have next : b.chainsTo X tip = .ok () := by
    refine chainsTo_iff.mpr ⟨?_, ?_, spec.valid⟩
    · rw [expected, spec.previousHash]
      rfl
    · rw [index, spec.index]
      rfl
  refine h.snoc last next ?_
  rcases spec.evidence with pow | ⟨hash, c, result, carried⟩
  · rw [prepared.1] at pow
    simp [blockConsensusAdmissible, pow]
  · obtain ⟨proper, valid⟩ := round _ writeSet c slice result
    have structural : c.validate b = .ok () := by
      rw [QuorumCertificate.validate_iff] at valid ⊢
      rw [spec.index, hash]
      exact valid
    simp [blockConsensusAdmissible, carried, proper, isOk_iff.mpr structural]

end Admitted

/-- Every ledger since the last start has the same difficulty and an admitted chain. -/
def Timeline.Sound (X : Externals) (difficulty : Nat) (s : Timeline) : Prop :=
  ∀ L ∈ s.ledger :: s.past, L.difficulty = difficulty ∧ Admitted X difficulty L.chain

namespace Timeline

variable {s t : Timeline} {input : NodeInput B}

lemma Sound.next (injective : Function.Injective X.contentHash) (sound : s.Sound X difficulty)
    (coherent : s.Coherent X input) : (s.next X input).Sound X difficulty := by
  obtain ⟨same, admitted⟩ := sound s.ledger (by simp)
  cases input with
  | receive input =>
    subst same
    refine forall_mem_cons.mpr ⟨⟨receive_difficulty input, ?_⟩, sound⟩
    cases input with
    | submit tx =>
      obtain e | e | e | ⟨-, -, e⟩ := s.ledger.addTransaction_cases X tx <;>
        simpa [Timeline.next, receive, e] using admitted
    | prepare =>
      simp only [Timeline.next, receive, prepareMining]
      split <;> exact admitted
    | mine v =>
      obtain ⟨difficulty, earlier⟩ := sound _ coherent.1
      rw [Timeline.next, receive_mine_chain]
      exact admitted.mine injective ⟨difficulty, earlier.linked⟩ coherent.2
    | block v b => exact admitted.receiveBlock coherent
    | chain v blocks =>
      obtain e | ⟨-, -, adopts, e⟩ := receiveChain_cases (X := X) (L := s.ledger) v blocks <;>
        simp only [Timeline.next, receive, e]
      · exact admitted
      · exact admitted.adopted injective adopts
    | suffix blocks => exact admitted.suffix coherent
  | restart store key fresh =>
    obtain ⟨clock, fuel, created⟩ := coherent
    rw [same] at created
    obtain ⟨kept, start⟩ := Admitted.new created
    refine forall_mem_cons.mpr ⟨?_, by simp [Timeline.next]⟩
    obtain ⟨e, -⟩ | ⟨chain, stored, ok, e⟩ := restoreLedger_cases X key store fresh <;>
      simp only [Timeline.next, e]
    · exact ⟨kept, start⟩
    · exact ⟨kept, kept ▸ Admitted.restored stored ok⟩

/-- In every run of coherent inputs from a new ledger the chain is admitted. -/
theorem admitted_along_runs (injective : Function.Injective X.contentHash) {clock : Nat → Nat}
    {fuel : Nat} {L : Ledger} (created : Ledger.new X clock fuel difficulty = some L)
    (run : Reaches (Timeline.Step X (B := B)) (Timeline.Coherent X) ⟨L, []⟩ t) :
    t.ledger.difficulty = difficulty ∧ Admitted X difficulty t.ledger.chain := by
  have sound : t.Sound X difficulty := by
    refine run.invariant (I := Timeline.Sound X difficulty) ?_ ?_
    · rintro s input _ sound coherent rfl
      exact sound.next injective coherent
    · intro M mem
      obtain rfl : M = L := by simpa using mem
      exact Admitted.new created
  exact sound t.ledger (by simp)

end Timeline

end GlassChain
