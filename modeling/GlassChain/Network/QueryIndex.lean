import GlassChain.Indexer.InMemory
import GlassChain.Network.AfterCommit

/-!
# The query index of a ledger

The indexer takes a block in when `after_block_commit` has left storage behind. No other path fills
it: an adopted chain is never indexed and a restart begins with an empty indexer. The index answers
as the fold of the ledger's chain in the quiescent states of runs without chain replacement, in
which restarts find nothing after genesis, no block is admitted too late, and the blocks are indexed
in chain order.
-/

namespace GlassChain

open Library Materialised List InMemoryIndexer Multisig
open scoped List

variable {B : Multisig} {X : Externals}

/-- A node with its indexer, and the blocks that are to be indexed next. -/
structure QueryNode where
  node : Materialised
  indexer : InMemoryIndexer
  due : List Block

inductive QueryEvent (B : Multisig) where
  | node (event : ProjectionEvent B)
  /-- One of the commits under way comes to `index_block`. -/
  | index (position : Nat)

namespace QueryNode

def boot (node : Materialised) : QueryNode := ⟨node, .new, []⟩

def next (X : Externals) (s : QueryNode) : QueryEvent B → QueryNode
  | .node event =>
    if event.restarts then boot (s.node.next X event)
    else { s with
      node := s.node.next X event
      due := s.due ++ s.node.finished event }
  | .index position => match s.due[position]? with
    | none => s
    | some block => { s with
        indexer := s.indexer.indexBlock X block
        due := s.due.eraseIdx position }

def Step (X : Externals) (s : QueryNode) (event : QueryEvent B) (t : QueryNode) : Prop :=
  t = s.next X event

def Quiescent (s : QueryNode) : Prop := s.node.work = [] ∧ s.due = []

def outstanding (s : QueryNode) : List Block := Work.outstanding s.node.work ++ s.due

/-- The ledger holds only a genesis block without transactions. -/
def Genesis (L : Ledger) : Prop :=
  ∃ genesis, L.chain = [genesis] ∧ genesis.index = 0 ∧ genesis.transactions = []

/-- What keeps the index and the ledger together. -/
def Incremental (X : Externals) (s : QueryNode) : QueryEvent B → Prop
  | .node event => s.node.Grows X event ∨
      event.restarts = true ∧ Genesis (s.node.next X event).ledger
  | .index position => ∀ block, s.due[position]? = some block →
      s.node.ledger.chain[s.node.ledger.chain.length - s.outstanding.length]? = some block

/-- The index is the fold of the chain up to the blocks that are outstanding. -/
structure Keeps (X : Externals) (s : QueryNode) (genesis : Block) (indexed rest : List Block) :
    Prop where
  chain : s.node.ledger.chain = genesis :: (indexed ++ rest)
  index : genesis.index = 0
  silent : genesis.transactions = []
  folded : s.indexer = indexed.foldl (InMemoryIndexer.indexBlock X) .new
  missing : s.outstanding.Perm rest

variable {s : QueryNode} {genesis : Block} {indexed rest : List Block}

lemma next_node {event : ProjectionEvent B} (stays : event.restarts = false) :
    s.next X (.node event) =
      { s with node := s.node.next X event, due := s.due ++ s.node.finished event } := by
  simp [next, stays]

lemma next_restart {event : ProjectionEvent B} (restarts : event.restarts = true) :
    s.next X (.node event) = boot (s.node.next X event) := by
  simp [next, restarts]

lemma Keeps.boot (node : Materialised) (idle : node.work = []) (only : Genesis node.ledger) :
    ∃ genesis, Keeps X (boot node) genesis [] [] := by
  obtain ⟨genesis, chain, index, silent⟩ := only
  exact ⟨genesis, chain, index, silent, rfl, by simp [QueryNode.boot, outstanding, idle]⟩

lemma Keeps.grow (keeps : s.Keeps X genesis indexed rest) {event : ProjectionEvent B}
    (grows : s.node.Grows X event) : ∃ new, Keeps X { s with
      node := s.node.next X event
      due := s.due ++ s.node.finished event } genesis indexed (rest ++ new) := by
  obtain ⟨new, chain, account⟩ := next_grows grows
  refine ⟨new, by simp [chain, keeps.chain], keeps.index, keeps.silent, keeps.folded, ?_⟩
  have missing := keeps.missing
  simp only [outstanding] at missing ⊢
  calc Work.outstanding (s.node.next X event).work ++ (s.due ++ s.node.finished event)
    _ ~ Work.outstanding (s.node.next X event).work ++ (s.node.finished event ++ s.due) :=
      perm_append_comm.append_left _
    _ ~ Work.outstanding s.node.work ++ new ++ s.due := by
      simpa using account.append_right s.due
    _ ~ Work.outstanding s.node.work ++ s.due ++ new := by
      simpa using perm_append_comm.append_left (Work.outstanding s.node.work)
    _ ~ rest ++ new := missing.append_right new

lemma Keeps.index_block (keeps : s.Keeps X genesis indexed rest) {position : Nat} {block : Block}
    (found : s.due[position]? = some block)
    (next : s.node.ledger.chain[s.node.ledger.chain.length - s.outstanding.length]? = some block) :
    ∃ later, Keeps X { s with
      indexer := s.indexer.indexBlock X block
      due := s.due.eraseIdx position } genesis (indexed ++ [block]) later := by
  obtain ⟨front, back, split, erased, -⟩ := exists_split found
  have place : s.node.ledger.chain.length - s.outstanding.length = indexed.length + 1 := by
    rw [keeps.missing.length_eq, keeps.chain]
    simp
    omega
  rw [place, keeps.chain, getElem?_cons_succ, getElem?_append_right le_rfl,
    Nat.sub_self] at next
  obtain ⟨later, rfl⟩ : ∃ later, rest = block :: later := by
    cases rest with
    | nil => simp at next
    | cons b later => exact ⟨later, by simpa using next⟩
  refine ⟨later, by simp [keeps.chain], keeps.index, keeps.silent, by simp [keeps.folded], ?_⟩
  have missing := keeps.missing
  simp only [outstanding, erased, ← append_assoc]
  simp only [outstanding, split, ← append_assoc] at missing
  exact (perm_middle.symm.trans missing).cons_inv

lemma Keeps.next (keeps : s.Keeps X genesis indexed rest) {event : QueryEvent B}
    (incremental : s.Incremental X event) :
    ∃ genesis indexed rest, Keeps X (s.next X event) genesis indexed rest := by
  cases event with
  | index position =>
    simp only [QueryNode.next]
    split
    · exact ⟨_, _, _, keeps⟩
    · rename_i block found
      obtain ⟨later, keeps⟩ := keeps.index_block found (incremental block found)
      exact ⟨_, _, _, keeps⟩
  | node event =>
    obtain grows | ⟨restarts, only⟩ := incremental
    · obtain ⟨new, keeps⟩ := keeps.grow grows
      rw [next_node grows.not_restarts]
      exact ⟨_, _, _, keeps⟩
    · obtain ⟨genesis, keeps⟩ :=
        Keeps.boot (s.node.next X event) (next_restarts restarts) only
      rw [next_restart restarts]
      exact ⟨_, _, _, keeps⟩

/-- In every run of a new node without chain replacement, in which restarts find nothing after
genesis, no block is admitted too late and blocks are indexed in chain order, the index is the fold
of the ledger's chain whenever no work is outstanding. -/
theorem index_folds_ledger {clock : Nat → Nat} {fuel difficulty : Nat} {L : Ledger}
    (created : Ledger.new X clock fuel difficulty = some L) {verifierKey : B.PrivateKey}
    {backend : Backend} {t : QueryNode}
    (run : Reaches (Step X) (Incremental X (B := B))
      (boot (Materialised.boot X verifierKey backend Store.empty L)) t)
    (quiet : t.Quiescent) :
    t.indexer.SameAnswers (.ofChain X t.node.ledger.chain) := by
  have keeps : ∃ genesis indexed rest, t.Keeps X genesis indexed rest := by
    refine run.invariant (I := fun s => ∃ genesis indexed rest, s.Keeps X genesis indexed rest) ?_ ?_
    · rintro s event _ ⟨genesis, indexed, rest, keeps⟩ incremental rfl
      exact keeps.next incremental
    · obtain ⟨genesis, mined, rfl⟩ := Option.map_eq_some_iff.mp created
      have spec := Block.mine_spec mined
      obtain ⟨genesis, keeps⟩ := Keeps.boot (Materialised.boot X verifierKey backend Store.empty
        ⟨[genesis], [], difficulty, 0, none, 0, none⟩) rfl ⟨genesis, rfl, spec.index, spec.transactions⟩
      exact ⟨_, _, _, keeps⟩
  obtain ⟨genesis, indexed, rest, keeps⟩ := keeps
  obtain rfl : rest = [] := by
    have := keeps.missing
    simpa [outstanding, quiet.1, quiet.2] using this
  rw [keeps.folded, keeps.chain, append_nil]
  exact (matches_ofChain keeps.index keeps.silent).sameAnswers

lemma getBlock_ofChain {chain : List Block} (consecutive : Consecutive chain) (height : Nat) :
    (InMemoryIndexer.ofChain X chain).getBlock height = chain[height]?.map .ofBlock := by
  induction chain using List.reverseRecOn with
  | nil => rfl
  | append_singleton front last ih =>
    have index : last.index = front.length := consecutive.last
    have folded : InMemoryIndexer.ofChain X (front ++ [last]) =
        (InMemoryIndexer.ofChain X front).indexBlock X last := by
      simp [ofChain]
    rw [folded]
    by_cases here : height = front.length
    · rw [here, getElem?_concat_length, ← index]
      exact AList.lookup_insert _
    · have same : (front ++ [last])[height]? = front[height]? := by grind
      rw [same, ← ih consecutive.front]
      exact AList.lookup_insert_ne (index ▸ here)

/-- An empty indexer misses every block after genesis. -/
theorem not_sameAnswers_new {chain : List Block} (consecutive : Consecutive chain)
    (longer : 1 < chain.length) :
    ¬InMemoryIndexer.new.SameAnswers (InMemoryIndexer.ofChain X chain) := by
  intro same
  have first := same.blocks 1 one_ne_zero
  rw [getBlock_ofChain consecutive, getElem?_eq_getElem longer] at first
  cases first

section Samples

variable (X)

/-- A new node commits a block and indexes it. -/
theorem restock_indexed : Reaches (Step X) (Incremental X (B := symbolic 48))
    (boot (freshNode X))
    ⟨.restocking X (restockStore X) [], InMemoryIndexer.new.indexBlock X (restockBlock X), []⟩ := by
  have committed : Step X (boot (freshNode X))
      (.node (.block (freshView X) (restockBlock X)))
      (boot (.restocking X (freshNode X).store [.post (restockBlock X)])) := by
    rw [Step, next_node rfl]
    simp only [boot, freshNode_restock]
    rfl
  have stored : Step X
      (boot (.restocking X (freshNode X).store [.post (restockBlock X)]))
      (.node (.work 0 .healthy) : QueryEvent (symbolic 48))
      (boot (.restocking X (restockStore X) [.mirror (restockBlock X)])) := by
    obtain ⟨posted, none⟩ := restocking_posted (B := symbolic 48) X
    rw [Step, next_node rfl]
    simp only [boot, posted, none, append_nil]
  have grows : Incremental X (boot (freshNode X))
      (.node (.block (freshView X) (restockBlock X))) :=
    .inl fun _ => isOk_iff.mpr (restockBlock_chainsTo X)
  have work (s : QueryNode) :
      s.Incremental X (.node (.work 0 .healthy) : QueryEvent (symbolic 48)) := .inl trivial
  have run := ((Reaches.refl _).tail _ grows committed).tail _ (work _) stored
  refine (run.tail _ (work _) rfl).tail (.index 0) ?_ rfl
  intro block found
  cases found
  rfl

end Samples

/-- An adopted chain is not indexed. A restart restores a chain that was indexed, and the indexer is
empty. -/
theorem index_misses_adopted_and_restarted :
    let X : Externals := .plain 0
    let start := boot (Materialised.boot X (sampleKey 1) .healthy Store.empty (freshPool X).ledger)
    let run := Reaches (Step X (B := symbolic 48)) anyStep start
    (∃ t, run t ∧ t.Quiescent ∧ t.node.ledger.chain = idleChain X ∧
      ¬t.indexer.SameAnswers (.ofChain X t.node.ledger.chain)) ∧
    ∃ s t, run s ∧ run t ∧ s.Quiescent ∧ t.Quiescent ∧ t.node.ledger.chain = s.node.ledger.chain ∧
      s.indexer.SameAnswers (.ofChain X s.node.ledger.chain) ∧
      ¬t.indexer.SameAnswers (.ofChain X t.node.ledger.chain) := by
  intro X start run
  refine ⟨?_, ?_⟩
  · have adopted : Step X start (.node (.chain soloView (idleChain X)))
        (boot ⟨{ (freshPool X).ledger with chain := idleChain X }.resetIndexes,
          (freshNode X).world, (freshNode X).store, [.adopted]⟩) := by
      have replaced := next_idle (X := X) (s := freshNode X) (v := soloView)
        rfl rfl (by decide) rfl rfl
      rw [Step, next_node rfl]
      exact congrArg boot replaced.symm
    have stored : run _ :=
      ((Reaches.refl _).tail _ trivial adopted).tail (.node (.work 0 .healthy)) trivial rfl
    have rebuilt : run _ := stored.tail (.node (.work 0 .healthy)) trivial rfl
    exact ⟨_, rebuilt.tail (.node (.work 0 .healthy)) trivial rfl, ⟨rfl, rfl⟩, rfl,
      not_sameAnswers_new (idleChain_consecutive X) (by decide)⟩
  · have before : run ⟨.restocking X (restockStore X) [],
        InMemoryIndexer.new.indexBlock X (restockBlock X), []⟩ :=
      (restock_indexed X).weaken fun _ _ _ => trivial
    let again : ProjectionEvent (symbolic 48) :=
      .restart (sampleKey 1) (freshPool X).ledger .healthy
    have restored := restocked_restarts X []
    refine ⟨_, boot ((restocking X (restockStore X) []).next X again), before,
      before.tail (.node again) trivial rfl, ⟨rfl, rfl⟩, ⟨rfl, rfl⟩, ?_, ?_, ?_⟩
    · exact congrArg Ledger.chain restored
    · have index : (sealedGenesis X).index = 0 := rfl
      have folded : ([restockBlock X].foldl (InMemoryIndexer.indexBlock X) .new).Matches
          (.ofChain X [sealedGenesis X, restockBlock X]) :=
        matches_ofChain index rfl
      exact folded.sameAnswers
    · have chain := congrArg Ledger.chain restored
      simp only [boot, again, chain]
      exact not_sameAnswers_new (restockStore_holds X).consecutive (by decide)

/-- A committed block that was indexed is found. -/
theorem index_folds_restock : ∃ t : QueryNode,
    t.Quiescent ∧ t.node.ledger.chain = [sealedGenesis (.plain 0), restockBlock (.plain 0)] ∧
      t.indexer.SameAnswers (.ofChain (.plain 0) t.node.ledger.chain) :=
  ⟨_, ⟨rfl, rfl⟩, rfl, index_folds_ledger (new_zero _) (restock_indexed (.plain 0)) ⟨rfl, rfl⟩⟩

end QueryNode

end GlassChain
