import GlassChain.Core.LedgerPool
import GlassChain.Core.Minable

/-!
# Where an accepted transaction is

A run of submissions, preparations and commits on one ledger, without peers. Every accepted
transaction is committed, drained or queued, and it is in one place only: each call moves whole
slices between the three. The code does not keep to this in two cases. A submission is not compared
with the drained slices, and a slice whose block the commit gate refuses is dropped.
-/

namespace GlassChain

open Library List PoolState Ledger Block
open scoped List

variable {X : Externals}

namespace PoolState

def drained (s : PoolState) : List Transaction := s.inFlight.flatMap fun f => f.prepared.transactions

def waiting (s : PoolState) : List Transaction := s.ledger.pendingTransactions ++ s.drained

def held (s : PoolState) : List Transaction := s.ledger.chain.flatMap Block.transactions ++ s.waiting

lemma txIds_chain (chain : List Block) :
    txIds (chain.flatMap Block.transactions) = chainIds chain := by
  simp [txIds, chainIds, map_flatMap]

lemma txIds_drained (s : PoolState) : txIds s.drained = s.inFlightIds := by
  simp only [txIds, drained, inFlightIds, map_flatMap]
  rfl

lemma txIds_held (s : PoolState) : txIds s.held =
    chainIds s.ledger.chain ++ (txIds s.ledger.pendingTransactions ++ s.inFlightIds) := by
  rw [held, waiting, txIds_append, txIds_append, txIds_drained, txIds_chain]

end PoolState

structure Tracked where
  pool : PoolState
  accepted : List Transaction

namespace Tracked

def accepts (X : Externals) (s : PoolState) : Call → List Transaction
  | .add tx => match (s.ledger.addTransaction X tx).2 with
    | .ok () => [tx]
    | .error _ => []
  | _ => []

def step (X : Externals) (s : Tracked) (c : Call) (t : Tracked) : Prop :=
  s.pool.step X c t.pool ∧ t.accepted = s.accepted ++ accepts X s.pool c

def Initial (X : Externals) (s : Tracked) : Prop := s.pool.Initial X ∧ s.accepted = []

end Tracked

/-- Submissions, preparations, and commits of blocks built from a drained slice. -/
def MinesOwnSlices (X : Externals) (s : Tracked) : Call → Prop
  | .add _ => True
  | .prepare => True
  | .commit block expectedPrevHash =>
    ∃ slice ∈ s.pool.inFlight, BuiltFrom X slice block expectedPrevHash
  | _ => False

/-- The same, where no drained id is submitted again and the commit gate refuses no block. -/
def Tracked.Disciplined (X : Externals) (s : Tracked) (c : Call) : Prop :=
  MinesOwnSlices X s c ∧ match c with
    | .add tx => tx.id ∉ s.pool.inFlightIds
    | .commit block expectedPrevHash =>
      ∃ done, (s.pool.ledger.commitMinedBlock X block expectedPrevHash).2 = .ok done
    | _ => True

/-- Every accepted transaction is in one place, and nothing else is. The id index is either absent,
while nothing waits, or up to date. -/
structure InPlaces (s : Tracked) : Prop where
  index : IdsInv s.pool.ledger
  caughtUp : IdsCaughtUp s.pool.ledger
  idle : s.pool.ledger.committedIds = none → s.pool.waiting = []
  once : (txIds s.pool.held).Nodup
  placed : ∀ tx ∈ s.accepted, tx.id ∈ txIds s.pool.held
  sound : ∀ tx ∈ s.pool.held, tx ∈ s.accepted

namespace InPlaces

variable {s : Tracked} {t : PoolState}

/-- What is held may change its order and its place. -/
theorem moved (inv : InPlaces s) (index : IdsInv t.ledger) (caughtUp : IdsCaughtUp t.ledger)
    (idle : t.ledger.committedIds = none → t.waiting = []) (same : t.held ~ s.pool.held) :
    InPlaces ⟨t, s.accepted⟩ where
  index := index
  caughtUp := caughtUp
  idle := idle
  once := (same.map _).nodup_iff.mpr inv.once
  placed tx mem := (same.map _).mem_iff.mpr (inv.placed tx mem)
  sound tx mem := inv.sound tx (same.mem_iff.mp mem)

/-- A call that leaves chain and id index alone and moves transactions between pool and slices. -/
theorem reordered (inv : InPlaces s) (chain : t.ledger.chain = s.pool.ledger.chain)
    (ids : t.ledger.committedIds = s.pool.ledger.committedIds)
    (len : t.ledger.idsLen = s.pool.ledger.idsLen) (same : t.waiting ~ s.pool.waiting) :
    InPlaces ⟨t, s.accepted⟩ := by
  refine inv.moved ?_ ?_ ?_ ?_
  · simpa only [IdsInv, chain, ids, len] using inv.index
  · simpa only [IdsCaughtUp, chain, ids, len] using inv.caughtUp
  · intro absent
    rw [ids] at absent
    rw [inv.idle absent] at same
    exact same.eq_nil
  · rw [held, held, chain]
    exact same.append_left _

lemma foldCapability (inv : InPlaces s) :
    InPlaces ⟨{ s.pool with ledger := (s.pool.ledger.foldCapability X).1 }, s.accepted⟩ :=
  inv.reordered (by simp) (by simp) (by simp) (by simp [waiting, drained])

lemma foldCommittedIds (inv : InPlaces s) :
    InPlaces ⟨{ s.pool with ledger := s.pool.ledger.foldCommittedIds }, s.accepted⟩ := by
  obtain ⟨covers, all⟩ := inv.index.foldCommittedIds_eq
  refine inv.moved inv.index.foldCommittedIds (.inr (by simpa using covers)) ?_ ?_
  · intro absent
    rw [all] at absent
    cases absent
  · simp [held, waiting, drained]

variable {tx : Transaction}

lemma accept_known (inv : InPlaces s) (known : tx.id ∈ txIds s.pool.held) :
    InPlaces ⟨s.pool, s.accepted ++ [tx]⟩ where
  index := inv.index
  caughtUp := inv.caughtUp
  idle := inv.idle
  once := inv.once
  placed t mem := by
    rcases mem_append.mp mem with before | now
    · exact inv.placed t before
    · rwa [mem_singleton.mp now]
  sound t mem := mem_append_left _ (inv.sound t mem)

lemma accept_new (inv : InPlaces s) (new : tx.id ∉ txIds s.pool.held)
    (present : s.pool.ledger.committedIds ≠ none) :
    InPlaces ⟨{ s.pool with ledger := { s.pool.ledger with
      pendingTransactions := s.pool.ledger.pendingTransactions ++ [tx] } },
      s.accepted ++ [tx]⟩ := by
  have grown : PoolState.held { s.pool with ledger := { s.pool.ledger with
      pendingTransactions := s.pool.ledger.pendingTransactions ++ [tx] } } ~
      tx :: s.pool.held := by
    simp only [held, waiting, append_assoc, singleton_append]
    exact (perm_middle.append_left _).trans perm_middle
  refine ⟨inv.index, inv.caughtUp, fun absent => absurd absent present, ?_, ?_, ?_⟩
  · exact (grown.map _).nodup_iff.mpr (nodup_cons.mpr ⟨new, inv.once⟩)
  · intro t mem
    refine (grown.map _).mem_iff.mpr ?_
    rcases mem_append.mp mem with before | now
    · exact mem_cons_of_mem _ (inv.placed t before)
    · exact mem_cons.mpr (.inl (by rw [mem_singleton.mp now]))
  · intro t mem
    rcases mem_cons.mp (grown.mem_iff.mp mem) with rfl | before
    · exact mem_append_right _ mem_cons_self
    · exact mem_append_left _ (inv.sound t before)

lemma addTransaction (inv : InPlaces s) (free : tx.id ∉ s.pool.inFlightIds) :
    InPlaces ⟨{ s.pool with ledger := (s.pool.ledger.addTransaction X tx).1 },
      s.accepted ++ Tracked.accepts X s.pool (.add tx)⟩ := by
  have index : IdsInv (s.pool.ledger.foldCapability X).1 := (inv.foldCapability (X := X)).index
  have folded := (inv.foldCapability (X := X)).foldCommittedIds
  have committed (id : String) :
      (s.pool.ledger.foldCapability X).1.foldCommittedIds.isCommitted id = true ↔
        id ∈ chainIds s.pool.ledger.chain := by
    simp [isCommitted, index.foldCommittedIds_eq.2]
  have held : txIds (PoolState.held { s.pool with
      ledger := (s.pool.ledger.foldCapability X).1.foldCommittedIds }) = txIds s.pool.held := by
    simp [held, waiting, drained]
  have accepts : Tracked.accepts X s.pool (.add tx) =
      match (s.pool.ledger.addTransaction X tx).2 with
      | .ok () => [tx]
      | .error _ => [] := rfl
  obtain ⟨M, e, run, left⟩ | ⟨known, run⟩ | ⟨-, -, unknown, not_queued, -, run⟩ :=
    addTransaction_outcomes X s.pool.ledger tx <;> rw [accepts, run]
  · rw [append_nil]
    rcases left with rfl | rfl | rfl
    · exact inv
    · exact inv.foldCapability
    · exact folded
  · refine folded.accept_known ?_
    rw [held, txIds_held, mem_append, mem_append]
    rcases known with known | queued
    · exact .inl ((committed _).mp known)
    · exact .inr (.inl (isPending_iff.mp queued))
  · have new : tx.id ∉ txIds s.pool.held := by
      have not_committed : tx.id ∉ chainIds s.pool.ledger.chain := by
        rw [← committed, unknown]
        simp
      have not_pending : tx.id ∉ txIds s.pool.ledger.pendingTransactions := by
        rw [← isPending_iff, not_queued]
        simp
      simp [txIds_held, not_committed, not_pending, free]
    have queued := folded.accept_new (by rwa [held]) (by simp [index.foldCommittedIds_eq.2])
    simpa using queued

lemma drain (inv : InPlaces s) (tip : Block) : InPlaces ⟨⟨s.pool.ledger.drainSlice,
      ⟨⟨tip.index + 1, tip.hash, s.pool.ledger.slice, s.pool.ledger.difficulty⟩,
        s.pool.ledger.chain⟩ :: s.pool.inFlight⟩, s.accepted⟩ := by
  refine inv.reordered rfl rfl rfl ?_
  simp only [waiting, drained, flatMap_cons]
  rw [← s.pool.ledger.slice_append_drainSlice, append_assoc]
  exact perm_append_comm_assoc _ _ _

end InPlaces

/-- The slice found by its ids is the slice itself, up to slices without transactions. -/
theorem drained_eraseP {flights : List Slice} {slice : Slice} (unique : (flightIds flights).Nodup)
    (mem : slice ∈ flights) : flights.flatMap (fun f => f.prepared.transactions) ~
      slice.prepared.transactions ++
        (flights.eraseP fun f => f.ids == slice.ids).flatMap fun f => f.prepared.transactions := by
  induction flights with
  | nil => cases mem
  | cons f rest ih =>
    rw [flightIds, flatMap_cons, nodup_append'] at unique
    obtain ⟨-, later, apart⟩ := unique
    by_cases same : f.ids = slice.ids
    · have equal : f.prepared.transactions = slice.prepared.transactions := by
        rcases mem_cons.mp mem with rfl | inside
        · rfl
        -- a later slice with these ids shares them with `f`, so both are empty
        · have none_shared : slice.ids = [] := eq_nil_iff_forall_not_mem.mpr fun id here =>
            apart (same ▸ here) (mem_flatMap.mpr ⟨slice, inside, here⟩)
          rw [none_shared] at same
          rw [map_eq_nil_iff.mp same, map_eq_nil_iff.mp none_shared]
      rw [eraseP_cons_of_pos (by simpa using same), flatMap_cons, equal]
    · have inside : slice ∈ rest := by
        rcases mem_cons.mp mem with rfl | inside
        · exact absurd rfl same
        · exact inside
      rw [eraseP_cons_of_neg (by simpa using same), flatMap_cons, flatMap_cons]
      calc f.prepared.transactions ++ rest.flatMap (fun f => f.prepared.transactions)
          ~ f.prepared.transactions ++ (slice.prepared.transactions ++ _) :=
            (ih later inside).append_left _
        _ ~ slice.prepared.transactions ++ (f.prepared.transactions ++ _) :=
            perm_append_comm_assoc _ _ _

namespace InPlaces

variable {s : Tracked} {slice : Slice} {block : Block}

lemma flights_once (inv : InPlaces s) : (flightIds s.pool.inFlight).Nodup := by
  have once := inv.once
  rw [txIds_held] at once
  exact (nodup_append'.mp (nodup_append'.mp once).2.1).2.1

/-- The block's slice and the slices that stay. -/
theorem drained_split (inv : InPlaces s) (mem : slice ∈ s.pool.inFlight)
    (carries : block.transactions = slice.prepared.transactions) (L : Ledger) :
    s.pool.drained ~ block.transactions ++ PoolState.drained
      ⟨L, s.pool.inFlight.eraseP fun f => f.ids == txIds block.transactions⟩ := by
  rw [carries]
  exact drained_eraseP inv.flights_once mem

/-- A stale block's transactions go back to the pool, all of them. -/
theorem restored (inv : InPlaces s) (mem : slice ∈ s.pool.inFlight)
    (carries : block.transactions = slice.prepared.transactions) :
    InPlaces ⟨⟨s.pool.ledger.restorePending block.transactions,
      s.pool.inFlight.eraseP fun f => f.ids == txIds block.transactions⟩, s.accepted⟩ := by
  have split := inv.drained_split mem carries s.pool.ledger
  have held : s.pool.held ~ s.pool.ledger.chain.flatMap Block.transactions ++
      (s.pool.ledger.pendingTransactions ++ block.transactions ++ PoolState.drained
        ⟨s.pool.ledger, s.pool.inFlight.eraseP fun f => f.ids == txIds block.transactions⟩) := by
    rw [append_assoc]
    exact (split.append_left _).append_left _
  have once : (txIds _).Nodup := (held.map Transaction.id).nodup_iff.mp inv.once
  rw [txIds_append, txIds_chain, txIds_append _ (drained _), nodup_append', nodup_append'] at once
  obtain ⟨-, ⟨queue_once, -, -⟩, apart⟩ := once
  have unknown (tx : Transaction) (inside : tx ∈ block.transactions) :
      s.pool.ledger.isCommitted tx.id = false := by
    refine Bool.eq_false_iff.mpr fun committed => apart (inv.index.mem_of_isCommitted committed) ?_
    exact mem_append_left _ (mem_map_of_mem (mem_append_right _ inside))
  have back := restorePending_fresh unknown queue_once
  rw [back]
  refine inv.reordered rfl rfl rfl ?_
  rw [waiting, waiting, append_assoc]
  exact (split.symm.append_left _)

/-- A block on the unmoved tip is committed with its whole slice. -/
theorem pushed (inv : InPlaces s) (mem : slice ∈ s.pool.inFlight)
    (carries : block.transactions = slice.prepared.transactions) (h : Option CapabilityHistory)
    (n : Nat) :
    InPlaces ⟨⟨({ s.pool.ledger with capabilityHistory := h, historyLen := n } :
        Ledger).pushCommitted block,
      s.pool.inFlight.eraseP fun f => f.ids == txIds block.transactions⟩, s.accepted⟩ := by
  have split := inv.drained_split mem carries s.pool.ledger
  refine inv.moved ?_ ?_ ?_ ?_
  · exact IdsInv.pushCommitted inv.index inv.caughtUp
  · rcases inv.caughtUp with absent | covers
    · exact .inl (by simp [pushCommitted, absent])
    · by_cases absent : s.pool.ledger.committedIds = none
      · exact .inl (by simp [pushCommitted, absent])
      · exact .inr (by simp [pushCommitted, Option.isSome_iff_ne_none.mpr absent])
  · intro absent
    have nothing := inv.idle (by simpa [pushCommitted] using absent)
    rw [waiting, append_eq_nil_iff] at nothing
    rw [nothing.2] at split
    exact append_eq_nil_iff.mpr ⟨nothing.1, (append_eq_nil_iff.mp split.symm.eq_nil).2⟩
  · simp only [held, waiting, pushCommitted, flatMap_append, flatMap_singleton, append_assoc]
    refine Perm.append_left _ ?_
    calc block.transactions ++ (s.pool.ledger.pendingTransactions ++ _)
        ~ s.pool.ledger.pendingTransactions ++ (block.transactions ++ _) :=
          perm_append_comm_assoc _ _ _
      _ ~ s.pool.ledger.pendingTransactions ++ s.pool.drained := split.symm.append_left _

end InPlaces

lemma inPlaces_initial {s : Tracked} (init : s.Initial X) : InPlaces s := by
  obtain ⟨⟨clock, fuel, difficulty, created, none_drained⟩, none_accepted⟩ := init
  obtain ⟨genesis, mined, made⟩ := Option.map_eq_some_iff.mp created
  have empty : s.pool.held = [] := by
    simp [held, waiting, drained, ← made, none_drained,
      (mine_spec mined).transactions, genesisBlock]
  have absent : s.pool.ledger.committedIds = none := by rw [← made]
  refine ⟨by simp [IdsInv, absent], .inl absent, fun _ => ?_, by simp [empty, txIds], ?_, ?_⟩
  · exact (append_eq_nil_iff.mp empty).2
  · simp [none_accepted]
  · simp [empty]

lemma inPlaces_step {s t : Tracked} {c : Call} (inv : InPlaces s) (keeps : s.Disciplined X c)
    (step : s.step X c t) : InPlaces t := by
  obtain ⟨moved, accepted⟩ := step
  obtain ⟨own, keeps⟩ := keeps
  obtain ⟨pool, kept⟩ := t
  obtain rfl : kept = _ := accepted
  cases c with
  | add tx =>
    cases moved
    exact inv.addTransaction keeps
  | prepare =>
    rw [show Tracked.accepts X s.pool .prepare = [] from rfl, append_nil]
    obtain rfl | ⟨tip, -, rfl⟩ := step_prepare_cases moved
    · exact inv
    · exact inv.drain tip
  | commit block expectedPrevHash =>
    rw [show Tracked.accepts X s.pool (.commit ..) = [] from rfl, append_nil]
    cases moved
    obtain ⟨slice, mem, built⟩ := own
    obtain ⟨done, passed⟩ := keeps
    rcases commitMinedBlock_cases X s.pool.ledger block expectedPrevHash with
      ⟨-, e⟩ | ⟨tip, last, ⟨-, e⟩ | ⟨h, n, -, ⟨err, e⟩ | e⟩⟩ <;> rw [e] at passed ⊢
    · cases passed
    · exact inv.restored mem built.transactions
    · cases passed
    · exact inv.pushed mem built.transactions h n
  | mine | restore | release | appendPeer | replace => exact own.elim

/-- A submission queues nothing beyond the bound; only a restore passes it. -/
theorem Ledger.addTransaction_length_le (X : Externals) (L : Ledger) (tx : Transaction) :
    (L.addTransaction X tx).1.pendingTransactions.length ≤
      max maxPendingTransactions L.pendingTransactions.length := by
  obtain ⟨M, e, run, left⟩ | ⟨-, run⟩ | ⟨-, -, -, -, room, run⟩ :=
    addTransaction_outcomes X L tx <;> rw [run]
  · rcases left with rfl | rfl | rfl <;> simp
  · simp
  · simp only [length_append, length_singleton]
    omega

/-- A slice is the longest prefix of the pool that fits a block; the rest keeps its order. -/
theorem Ledger.prepareMining_splits {L M : Ledger} {p : Prepared}
    (prepared : L.prepareMining = (M, .ok p)) :
    p.transactions ++ M.pendingTransactions = L.pendingTransactions ∧
      p.transactions.length = min L.pendingTransactions.length maxBlockTransactions := by
  obtain ⟨tip, -, rfl, rfl⟩ := prepareMining_eq_ok prepared
  refine ⟨L.slice_append_drainSlice, ?_⟩
  simp only [slice, length_take]
  omega

/-- Along every disciplined run from a new ledger the pool's ids are distinct and not committed,
every accepted id is in one place, only accepted transactions are held, submissions respect the
bound and slices are prefixes. -/
theorem pool_discipline_along_runs (X : Externals) (s t : Tracked) (init : s.Initial X)
    (run : Reaches (Tracked.step X) (Tracked.Disciplined X) s t) :
    (txIds t.pool.ledger.pendingTransactions).Nodup ∧
    (∀ id ∈ txIds t.pool.ledger.pendingTransactions, id ∉ chainIds t.pool.ledger.chain) ∧
    (∀ tx ∈ t.accepted, (chainIds t.pool.ledger.chain ++
      (txIds t.pool.ledger.pendingTransactions ++ t.pool.inFlightIds)).count tx.id = 1) ∧
    (∀ tx ∈ t.pool.held, tx ∈ t.accepted) ∧
    (∀ tx, (t.pool.ledger.addTransaction X tx).1.pendingTransactions.length ≤
      max maxPendingTransactions t.pool.ledger.pendingTransactions.length) ∧
    ∀ L p, t.pool.ledger.prepareMining = (L, .ok p) →
      p.transactions ++ L.pendingTransactions = t.pool.ledger.pendingTransactions ∧
      p.transactions.length =
        min t.pool.ledger.pendingTransactions.length maxBlockTransactions := by
  have inv : InPlaces t := run.invariant (I := InPlaces)
    (fun _ _ _ inv keeps step => inPlaces_step inv keeps step) (inPlaces_initial init)
  have once := inv.once
  rw [txIds_held] at once
  obtain ⟨-, waiting, apart⟩ := nodup_append'.mp once
  refine ⟨(nodup_append'.mp waiting).1, fun id queued committed => ?_, fun tx mem => ?_,
    inv.sound, fun tx => addTransaction_length_le X _ tx,
    fun L p prepared => prepareMining_splits prepared⟩
  · exact apart committed (mem_append_left _ queued)
  · have placed := inv.placed tx mem
    rw [txIds_held] at placed
    exact count_eq_one_of_mem once placed

namespace Tracked

variable {s : Tracked}

lemma step_add {tx : Transaction} {L : Ledger}
    (added : s.pool.ledger.addTransaction X tx = (L, .ok ())) :
    s.step X (.add tx) ⟨{ s.pool with ledger := L }, s.accepted ++ [tx]⟩ :=
  ⟨PoolState.step_add added, by simp [accepts, added]⟩

lemma step_prepare {pool : PoolState} (prepared : s.pool.step X .prepare pool) :
    s.step X .prepare ⟨pool, s.accepted⟩ := ⟨prepared, (append_nil _).symm⟩

lemma step_commit {pool : PoolState} {block : Block} {expectedPrevHash : String}
    (committed : s.pool.step X (.commit block expectedPrevHash) pool) :
    s.step X (.commit block expectedPrevHash) ⟨pool, s.accepted⟩ :=
  ⟨committed, (append_nil _).symm⟩

end Tracked

lemma stockBlock_own (X : Externals) (id : String) (pool accepted : List Transaction) :
    MinesOwnSlices X ⟨drainedPool X id pool, accepted⟩
      (.commit (stockBlock X id) (sealedGenesis X).hash) :=
  ⟨_, mem_singleton.mpr rfl, rfl, rfl, rfl, rfl, (chainsTo_iff.mp (after_chainsTo _ _ _)).2.2⟩

/-- A transaction is submitted, drained and committed. -/
theorem pool_discipline_sample : ∃ s t : Tracked, s.Initial (.plain 0) ∧
    Reaches (Tracked.step (.plain 0)) (Tracked.Disciplined (.plain 0)) s t ∧
    t.accepted = [stockTx "a"] ∧ ∀ tx ∈ t.accepted, (chainIds t.pool.ledger.chain ++
      (txIds t.pool.ledger.pendingTransactions ++ t.pool.inFlightIds)).count tx.id = 1 := by
  have init : Tracked.Initial (.plain 0) ⟨freshPool (.plain 0), []⟩ := ⟨freshPool_initial _, rfl⟩
  have run : Reaches (Tracked.step (.plain 0)) (Tracked.Disciplined (.plain 0)) ⟨freshPool _, []⟩
      ⟨minedPool (.plain 0) "a" [], [stockTx "a"]⟩ :=
    (((Reaches.refl _).tail (.add (stockTx "a")) ⟨trivial, by simp [inFlightIds, freshPool]⟩
      (Tracked.step_add (freshPool_addTransaction _ (by decide)))).tail _
      ⟨trivial, trivial⟩ (Tracked.step_prepare (stockedPool_prepare _ "a"))).tail _
      ⟨stockBlock_own _ "a" _ _, true, congrArg Prod.snd (drainedPool_commitMinedBlock _ "a" [])⟩
      (Tracked.step_commit (drainedPool_commit _ "a" []))
  exact ⟨_, _, init, run, rfl, (pool_discipline_along_runs _ _ _ init run).2.2.1⟩

/-- Submitted again while it is being mined, a transaction is queued and committed at once. Two
activations of one capability are drained into one block, the gate refuses it, and both are gone. -/
theorem pool_discipline_broken :
    (∃ s t : Tracked, s.Initial (.plain 0) ∧
      Reaches (Tracked.step (.plain 0)) (MinesOwnSlices (.plain 0)) s t ∧
      ∃ id ∈ txIds t.pool.ledger.pendingTransactions, id ∈ chainIds t.pool.ledger.chain) ∧
    ∃ s t : Tracked, s.Initial (.plain 0) ∧
      Reaches (Tracked.step (.plain 0)) (MinesOwnSlices (.plain 0)) s t ∧
      ∃ tx ∈ t.accepted, tx.id ∉ txIds t.pool.held := by
  have init : Tracked.Initial (.plain 0) ⟨freshPool (.plain 0), []⟩ := ⟨freshPool_initial _, rfl⟩
  constructor
  · have run : Reaches (Tracked.step (.plain 0)) (MinesOwnSlices (.plain 0)) ⟨freshPool _, []⟩
        ⟨minedPool (.plain 0) "a" [stockTx "a"], [stockTx "a", stockTx "a"]⟩ :=
      ((((Reaches.refl _).tail _ trivial
        (Tracked.step_add (freshPool_addTransaction _ (by decide)))).tail _ trivial
        (Tracked.step_prepare (stockedPool_prepare _ "a"))).tail _ trivial
        (Tracked.step_add (drainedPool_addTransaction _ (by decide)))).tail _
        (stockBlock_own _ "a" _ _)
        (Tracked.step_commit (drainedPool_commit _ "a" _))
    exact ⟨_, _, init, run, "a", by decide, by decide⟩
  · obtain ⟨L, e, refused, chain, pending⟩ := pooled_commit_refused (.plain 0) "t1" "t2" "pdc"
    let txs := [activationTx (.plain 0) "t1" "pdc", activationTx (.plain 0) "t2" "pdc"]
    let slice : Slice := ⟨⟨1, (sealedGenesis (.plain 0)).hash, txs, 0⟩, [sealedGenesis (.plain 0)]⟩
    let block := (sealedGenesis (.plain 0)).after (.plain 0) txs
    have prepared : (pooled (.plain 0) txs).step (.plain 0) .prepare
        ⟨(pooled (.plain 0) []).ledger, [slice]⟩ := by
      rw [step, call, pooled_prepare _ (by decide)]
      rfl
    have own : MinesOwnSlices (.plain 0) ⟨⟨(pooled (.plain 0) []).ledger, [slice]⟩, txs⟩
        (.commit block (sealedGenesis (.plain 0)).hash) :=
      ⟨slice, mem_singleton.mpr rfl, rfl, rfl, rfl, rfl,
        (chainsTo_iff.mp (after_chainsTo _ _ _)).2.2⟩
    have dropped : PoolState.step (.plain 0) ⟨(pooled (.plain 0) []).ledger, [slice]⟩
        (.commit block (sealedGenesis (.plain 0)).hash) ⟨L, []⟩ := by
      rw [step, call, refused]
      rfl
    have run : Reaches (Tracked.step (.plain 0)) (MinesOwnSlices (.plain 0)) ⟨freshPool _, []⟩
        ⟨⟨L, []⟩, txs⟩ :=
      ((((Reaches.refl _).tail _ trivial
        (Tracked.step_add (freshPool_add_activation _ (by decide) (by decide)))).tail _ trivial
        (Tracked.step_add (pooled_add_activation _ (by decide) (by decide) (by decide)))).tail _
        trivial (Tracked.step_prepare prepared)).tail _ own (Tracked.step_commit dropped)
    have gone : PoolState.held ⟨L, []⟩ = [] := by
      simp [held, waiting, drained, chain, pending, sealedGenesis, genesisBlock]
    refine ⟨_, _, init, run, _, mem_cons_self, ?_⟩
    rw [gone]
    exact not_mem_nil

end GlassChain
