import GlassChain.Core.LedgerRun

/-!
# The incremental admission indexes

The ledger folds two indexes lazily behind watermarks: the capability history and the set of
committed ids. Between calls the capability index is either the replay of the blocks below its
watermark, or *stuck*: the next block refuses to fold, and will refuse again.
-/

namespace GlassChain

open Library Ledger CapabilityHistory List Block PoolState Option

variable {X : Externals} {chain : List Block} {n n' : Nat} {h h' : CapabilityHistory}

/-- `h` is the replay of the first `n` blocks. -/
def Folded (X : Externals) (chain : List Block) (n : Nat) (h : CapabilityHistory) : Prop :=
  runInPlace (CapabilityHistory.validateBlock X) ⟨[]⟩ (chain.take n) = (h, .ok ())

/-- The block at the watermark cannot be folded into `h`. -/
def Stuck (X : Externals) (chain : List Block) (n : Nat) (h : CapabilityHistory) : Prop :=
  ∃ b, chain[n]? = some b ∧ ∀ g, h.validateBlock X b ≠ (g, .ok ())

structure HistoryInv (X : Externals) (chain : List Block) (n : Nat) (h : CapabilityHistory) :
    Prop where
  bound : n ≤ chain.length
  folded_or_stuck : Folded X chain n h ∨ Stuck X chain n h

/-- The watermark fold, when it ends well and when it stops at a block. -/
theorem runInPlace_foldBlock (l : List Block) {r : Except CoreError Unit}
    (run : runInPlace (Ledger.foldBlock X) (h, n) l = ((h', n'), r)) :
    (r = .ok () ∧ n' = n + l.length ∧
      runInPlace (validateBlock X) h l = (h', .ok ())) ∨
    ∃ l₁ b l₂ u e, l = l₁ ++ b :: l₂ ∧ n' = n + l₁.length ∧ r = .error e ∧
      runInPlace (validateBlock X) h l₁ = (u, .ok ()) ∧
      u.validateBlock X b = (h', .error e) := by
  induction l generalizing h n with
  | nil =>
    obtain ⟨⟨rfl, rfl⟩, rfl⟩ : (h = h' ∧ n = n') ∧ .ok () = r := by simpa using run
    exact .inl ⟨rfl, by simp, rfl⟩
  | cons b l ih =>
    rcases hb : h.validateBlock X b with ⟨g, e | ⟨⟩⟩
    · have stop : Ledger.foldBlock X (h, n) b = ((g, n), .error e) := by
        simp [foldBlock, hb]
      rw [runInPlace_cons_error stop] at run
      obtain ⟨⟨rfl, rfl⟩, rfl⟩ : (g = h' ∧ n = n') ∧ .error e = r := by simpa using run
      exact .inr ⟨[], b, l, h, e, rfl, by simp, rfl, rfl, hb⟩
    · have next : Ledger.foldBlock X (h, n) b = ((g, n + 1), .ok ()) := by
        simp [foldBlock, hb]
      rw [runInPlace_cons_ok next] at run
      rcases ih run with ⟨ok, count, rest⟩ | ⟨l₁, x, l₂, u, e, split, count, err, rest, stop⟩
      · exact .inl ⟨ok, by simp [count]; omega, by rw [runInPlace_cons_ok hb, rest]⟩
      · exact .inr ⟨b :: l₁, x, l₂, u, e, by simp [split], by simp [count]; omega, err,
          by rw [runInPlace_cons_ok hb, rest], stop⟩

lemma Folded.append_take {l₁ l₂ : List Block} {u : CapabilityHistory}
    (folded : Folded X chain n h) (split : chain.drop n = l₁ ++ l₂)
    (run : runInPlace (validateBlock X) h l₁ = (u, .ok ())) :
    Folded X chain (n + l₁.length) u := by
  have taken : chain.take (n + l₁.length) = chain.take n ++ l₁ := by
    rw [take_add, split, take_left]
  rw [Folded, taken, runInPlace_append_eq_ok]
  exact ⟨h, folded, run⟩

/-- Folding the rest of the chain keeps the invariant, and success means a full replay. -/
theorem HistoryInv.fold (inv : HistoryInv X chain n h) {r : Except CoreError Unit}
    (run : runInPlace (Ledger.foldBlock X) (h, n) (chain.drop n) = ((h', n'), r)) :
    HistoryInv X chain n' h' ∧ (r = .ok () → n' = chain.length ∧ Folded X chain n' h') := by
  have bound := inv.bound
  rcases runInPlace_foldBlock _ run with
    ⟨rfl, rfl, all⟩ | ⟨l₁, b, l₂, u, e, split, rfl, rfl, part, stop⟩
  · have full : n + (chain.drop n).length = chain.length := by simp; omega
    rcases inv.folded_or_stuck with folded | ⟨b, at_n, refuses⟩
    · have done := folded.append_take (append_nil _).symm all
      exact ⟨⟨full.le, .inl done⟩, fun _ => ⟨full, done⟩⟩
    · obtain ⟨lt, rfl⟩ := List.getElem?_eq_some_iff.mp at_n
      rw [drop_eq_getElem_cons lt, runInPlace_cons_eq_ok] at all
      obtain ⟨g, first, -⟩ := all
      exact absurd first (refuses g)
  · have at_stop : chain[n + l₁.length]? = some b := by
      rw [← getElem?_drop, split]
      simp
    have lt := (List.getElem?_eq_some_iff.mp at_stop).1
    refine ⟨⟨lt.le, .inr ⟨b, at_stop, ?_⟩⟩, by simp⟩
    exact validateBlock_retry_fails stop

lemma HistoryInv.append (inv : HistoryInv X chain n h) (l : List Block) :
    HistoryInv X (chain ++ l) n h := by
  refine ⟨by have := inv.bound; simp; omega, ?_⟩
  rcases inv.folded_or_stuck with folded | ⟨b, at_n, refuses⟩
  · exact .inl (by rwa [Folded, take_append_of_le_length inv.bound])
  · have lt := (List.getElem?_eq_some_iff.mp at_n).1
    exact .inr ⟨b, by rw [getElem?_append_left lt, at_n], refuses⟩

lemma historyInv_empty (chain : List Block) : HistoryInv X chain 0 ⟨[]⟩ :=
  ⟨Nat.zero_le _, .inl rfl⟩

def IdsInv (L : Ledger) : Prop := ∀ ids, L.committedIds = some ids →
  L.idsLen ≤ L.chain.length ∧ ids = (chainIds (L.chain.take L.idsLen)).toFinset

def IdsCaughtUp (L : Ledger) : Prop := L.committedIds = none ∨ L.idsLen = L.chain.length

lemma chainIds_append (c c' : List Block) : chainIds (c ++ c') = chainIds c ++ chainIds c' :=
  flatMap_append

namespace IdsInv

variable {L F : Ledger} {block : Block}

lemma foldCommittedIds_eq (inv : IdsInv L) : L.foldCommittedIds.idsLen = L.chain.length ∧
    L.foldCommittedIds.committedIds = some (chainIds L.chain).toFinset := by
  cases hids : L.committedIds with
  | none => simp [foldCommittedIds, hids]
  | some ids =>
    obtain ⟨bound, rfl⟩ := inv ids hids
    have whole : chainIds (L.chain.take L.idsLen) ++ chainIds (L.chain.drop L.idsLen) =
        chainIds L.chain := by
      rw [← chainIds_append, take_append_drop]
    rw [foldCommittedIds_some hids]
    refine ⟨by simp; omega, ?_⟩
    simp [← whole, toFinset_append]

lemma foldCommittedIds (inv : IdsInv L) : IdsInv L.foldCommittedIds := by
  obtain ⟨covers, exact_ids⟩ := inv.foldCommittedIds_eq
  intro ids present
  rw [exact_ids] at present
  simp [covers, ← some.inj present]

/-- A block pushed behind the index's back is folded later. -/
theorem push (inv : IdsInv L) (block : Block) : IdsInv { L with chain := L.chain ++ [block] } := by
  intro ids present
  obtain ⟨bound, rfl⟩ := inv ids present
  refine ⟨by simp; omega, ?_⟩
  simp [take_append_of_le_length bound]

/-- A commit on a caught-up index extends it by the new block. -/
theorem pushCommitted (inv : IdsInv L) (caughtUp : IdsCaughtUp L) :
    IdsInv (L.pushCommitted block) := by
  intro ids some_ids
  rcases caughtUp with absent | covers
  · simp [Ledger.pushCommitted, absent] at some_ids
  · obtain ⟨old, known, rfl⟩ : ∃ old, L.committedIds = some old ∧
        old ∪ (txIds block.transactions).toFinset = ids := by
      simpa [Ledger.pushCommitted] using some_ids
    obtain ⟨-, rfl⟩ := inv old known
    have taken : (L.chain ++ [block]).take (L.chain.length + 1) = L.chain ++ [block] := by simp
    simp [Ledger.pushCommitted, known, covers, chainIds, taken]

lemma mem_of_isCommitted (inv : IdsInv L) {id : String} (committed : L.isCommitted id = true) :
    id ∈ chainIds L.chain := by
  cases known : L.committedIds with
  | none => simp [isCommitted, known] at committed
  | some ids =>
    obtain ⟨-, rfl⟩ := inv ids known
    rw [← L.chain.take_append_drop L.idsLen, chainIds_append]
    exact mem_append_left _ (by simpa [isCommitted, known] using committed)

lemma reset (L : Ledger) : IdsInv L.resetIndexes := by
  simp [IdsInv, resetIndexes]

end IdsInv

/-- Both indexes describe the blocks below their watermarks. -/
structure IndexInv (X : Externals) (L : Ledger) : Prop where
  nonempty : L.chain ≠ []
  history : HistoryInv X L.chain L.historyLen (L.capabilityHistory.getD ⟨[]⟩)
  fresh : L.capabilityHistory = none → L.historyLen = 0
  ids : IdsInv L

/-- `block` is content the chain admits next: both replays accept it. -/
def AdmissibleNext (X : Externals) (chain : List Block) (block : Block) : Prop :=
  ∃ history policies, CapabilityHistory.buildFromBlocks X chain = .ok history ∧
    (history.validateBlock X block).2 = .ok () ∧
    PolicyHistory.buildFromBlocks chain = .ok policies ∧ (policies.validateBlock block).2 = .ok ()

def NoActivation (block : Block) : Prop :=
  ∀ tx ∈ block.transactions, ∀ a, tx.kind ≠ .capabilityActivation a

/-- A commit on the current tip is of admissible content or carries no activation, and finds the id
index caught up. -/
def CommitsKeepIndexes (X : Externals) (s : PoolState) : Call → Prop
  | .commit block expectedPrevHash =>
    s.ledger.chain.getLast?.map Block.hash = some expectedPrevHash →
      (AdmissibleNext X s.ledger.chain block ∨ NoActivation block) ∧ IdsCaughtUp s.ledger
  | _ => True

namespace IndexInv

variable {L F : Ledger}

section

variable (inv : IndexInv X L)

include inv

lemma foldCapability : IndexInv X (L.foldCapability X).1 := by
  unfold Ledger.foldCapability
  split
  · exact inv
  · rcases run : runInPlace (Ledger.foldBlock X) (L.capabilityHistory.getD ⟨[]⟩, L.historyLen)
      (L.chain.drop L.historyLen) with ⟨⟨h, n⟩, r⟩
    exact ⟨inv.nonempty, (inv.history.fold run).1, by simp, inv.ids⟩

lemma foldCapability_ok (ok : L.foldCapability X = (F, .ok ())) :
    F.historyLen = L.chain.length ∧
      ∃ h, F.capabilityHistory = some h ∧ Folded X L.chain L.chain.length h := by
  unfold Ledger.foldCapability at ok
  split at ok
  · next full =>
    obtain rfl : L = F := by simpa using ok
    have some_history : L.capabilityHistory ≠ none := fun absent => inv.nonempty (by
      rw [← length_eq_zero_iff, ← full, inv.fresh absent])
    obtain ⟨h, present⟩ := ne_none_iff_exists'.mp some_history
    refine ⟨full, h, present, ?_⟩
    have either := inv.history.folded_or_stuck
    rw [present, getD_some, full] at either
    rcases either with folded | ⟨b, beyond, -⟩
    · exact folded
    · simp at beyond
  · rcases run : runInPlace (Ledger.foldBlock X) (L.capabilityHistory.getD ⟨[]⟩, L.historyLen)
      (L.chain.drop L.historyLen) with ⟨⟨h, n⟩, r⟩
    rw [run] at ok
    obtain ⟨rfl, rfl⟩ := Prod.mk.inj ok
    obtain ⟨full, folded⟩ := (inv.history.fold run).2 rfl
    exact ⟨full, h, rfl, full ▸ folded⟩

lemma foldCommittedIds : IndexInv X L.foldCommittedIds :=
  ⟨by simpa using inv.nonempty, by simpa using inv.history, by simpa using inv.fresh,
    inv.ids.foldCommittedIds⟩

lemma with_pending (pool : List Transaction) : IndexInv X { L with pendingTransactions := pool } :=
  ⟨inv.nonempty, inv.history, inv.fresh, inv.ids⟩

/-- A block pushed behind the indexes' back is folded later. -/
theorem push (block : Block) : IndexInv X { L with chain := L.chain ++ [block] } :=
  ⟨by simp, inv.history.append _, inv.fresh, inv.ids.push block⟩

end

lemma reset (L : Ledger) (nonempty : L.chain ≠ []) : IndexInv X L.resetIndexes :=
  ⟨nonempty, historyInv_empty _, fun _ => rfl, IdsInv.reset L⟩

/-- The commit gate keeps the invariant when the block is admissible or carries no activation, and
its success is the replay of the longer chain. -/
theorem commitGate (inv : IndexInv X L) {block : Block}
    (harmless : AdmissibleNext X L.chain block ∨ NoActivation block) :
    ((L.commitGate X block).2 = .ok () →
      ∃ h, (L.commitGate X block).1 = { (L.foldCapability X).1 with capabilityHistory := some h } ∧
        Folded X (L.chain ++ [block]) (L.chain.length + 1) h) ∧
    ((L.commitGate X block).2 ≠ .ok () → IndexInv X (L.commitGate X block).1) := by
  have keep := inv.foldCapability
  unfold Ledger.commitGate
  rcases hf : L.foldCapability X with ⟨F, e | ⟨⟩⟩
  · exact ⟨by simp, fun _ => by simpa [hf] using keep⟩
  obtain ⟨-, h, present, folded⟩ := inv.foldCapability_ok hf
  have chain_eq : F.chain = L.chain := by
    simpa [hf] using foldCapability_chain (X := X) (L := L)
  have same : { F with capabilityHistory := some h } = F := by rw [← present]
  simp only [present]
  rcases hv : h.validateBlock X block with ⟨h', r⟩
  have unchanged : NoActivation block → h' = h := fun plain => by
    simpa [hv] using validateBlock_fst_of_no_activation (X := X) (h := h) plain
  have longer : r = .ok () → Folded X (L.chain ++ [block]) (L.chain.length + 1) h' := by
    rintro rfl
    have taken : (L.chain ++ [block]).take (L.chain.length + 1) = L.chain ++ [block] := by simp
    rw [Folded, taken, runInPlace_append_eq_ok]
    exact ⟨h, by simpa [Folded] using folded, by rw [runInPlace_cons_ok hv, runInPlace_nil]⟩
  -- A rejection after the history was touched is only possible without activations.
  have untouched : NoActivation block → IndexInv X { F with capabilityHistory := some h' } := by
    intro plain
    rw [unchanged plain, same]
    simpa [hf] using keep
  have accepted (next : AdmissibleNext X L.chain block) : r = .ok () ∧
      ∃ p, PolicyHistory.buildFromBlocks F.chain = .ok p ∧ (p.validateBlock block).2 = .ok () := by
    obtain ⟨g, p, built, valid, policies, policy_ok⟩ := next
    have whole := buildFromBlocks_eq_ok.mp built
    obtain rfl : g = h := by simpa [Folded, whole] using folded
    exact ⟨by simpa [hv] using valid, p, by rw [chain_eq, policies], policy_ok⟩
  rcases r with e | ⟨⟩
  · refine ⟨by simp, fun _ => untouched ?_⟩
    exact harmless.resolve_left fun next => by simpa using (accepted next).1
  · simp only
    rcases hp : PolicyHistory.buildFromBlocks F.chain with e | policies
    · refine ⟨by simp, fun _ => untouched ?_⟩
      refine harmless.resolve_left fun next => ?_
      obtain ⟨-, p, built, -⟩ := accepted next
      simp [hp] at built
    · refine ⟨fun _ => ⟨h', rfl, longer rfl⟩, fun refused => untouched ?_⟩
      refine harmless.resolve_left fun next => ?_
      obtain ⟨-, p, built, policy_ok⟩ := accepted next
      rw [hp] at built
      exact refused (Except.ok.inj built ▸ policy_ok)

/-- A pushed block that validated is marked folded by both indexes. -/
theorem pushCommitted (inv : IndexInv X L) {block : Block} (caughtUp : IdsCaughtUp L)
    (present : F = { L with historyLen := n, capabilityHistory := some h })
    (folded : Folded X (L.chain ++ [block]) (L.chain.length + 1) h) :
    IndexInv X (F.pushCommitted block) := by
  subst present
  refine ⟨by simp [Ledger.pushCommitted], ⟨by simp [Ledger.pushCommitted], .inl ?_⟩,
    by simp [Ledger.pushCommitted], inv.ids.pushCommitted caughtUp⟩
  simpa [Ledger.pushCommitted] using folded

lemma commitMinedBlock (inv : IndexInv X L) {block : Block} {expectedPrevHash : String}
    (keeps : L.chain.getLast?.map Block.hash = some expectedPrevHash →
      (AdmissibleNext X L.chain block ∨ NoActivation block) ∧ IdsCaughtUp L) :
    IndexInv X (L.commitMinedBlock X block expectedPrevHash).1 := by
  unfold Ledger.commitMinedBlock
  rcases tip : L.chain.getLast? with _ | t
  · exact inv
  simp only
  split
  · obtain ⟨pool, e⟩ := restorePending_frame L block.transactions
    rw [e]
    exact inv.with_pending _
  · next same =>
    obtain ⟨harmless, caughtUp⟩ := keeps (by simpa [tip] using same)
    obtain ⟨success, failure⟩ := inv.commitGate harmless
    rcases gate : L.commitGate X block with ⟨G, e | ⟨⟩⟩
    · simpa [gate] using failure (by simp [gate])
    · obtain ⟨h, left, folded⟩ := success (by simp [gate])
      obtain ⟨g, n, frame⟩ := foldCapability_frame X L
      simp only [gate, frame] at left
      exact inv.pushCommitted caughtUp left folded

end IndexInv

lemma indexInv_initial {s : PoolState} (init : s.Initial X) : IndexInv X s.ledger := by
  obtain ⟨clock, fuel, difficulty, created, -⟩ := init
  obtain ⟨genesis, -, made⟩ := map_eq_some_iff.mp created
  rw [← made]
  exact ⟨by simp, historyInv_empty _, fun _ => rfl, by simp [IdsInv]⟩

/-- One call keeps the indexes right, whether it succeeds or fails. -/
theorem indexInv_step {s t : PoolState} {c : Call} (inv : IndexInv X s.ledger)
    (keeps : CommitsKeepIndexes X s c) (step : s.step X c t) : IndexInv X t.ledger := by
  cases c with
  | add tx =>
    cases step
    rcases addTransaction_cases X s.ledger tx with e | e | e | ⟨-, -, e⟩ <;> rw [e]
    · exact inv
    · exact inv.foldCapability
    · exact inv.foldCapability.foldCommittedIds
    · exact inv.foldCapability.foldCommittedIds.with_pending _
  | prepare =>
    obtain rfl | ⟨tip, -, rfl⟩ := step_prepare_cases step
    · exact inv
    · exact inv.with_pending _
  | mine clock now fuel =>
    obtain ⟨r, mined, rfl⟩ := map_eq_some_iff.mp step
    rcases minePendingTransactions_cases mined with e | ⟨tip, block, -, -, e⟩ <;> rw [e]
    · exact inv
    · exact ((inv.with_pending _).push block).foldCommittedIds
  | commit block expectedPrevHash =>
    cases step
    exact inv.commitMinedBlock keeps
  | restore tx =>
    cases step
    rcases restoreTransaction_cases s.ledger tx with ⟨-, e⟩ | ⟨-, -, e⟩ <;> rw [e]
    · exact inv
    · exact inv.with_pending _
  | release position =>
    cases step
    exact inv
  | appendPeer block =>
    cases step
    rcases appendPeerBlock_cases X s.ledger block with e | ⟨-, e⟩ <;> rw [e]
    · exact inv
    · exact (inv.push block).with_pending _
  | replace candidate =>
    cases step
    rcases tryReplaceChain_cases X s.ledger candidate with e | ⟨adopted, e⟩ <;> rw [e]
    · exact inv
    · refine IndexInv.reset _ fun empty => ?_
      simp only at empty
      simp [adopts, empty] at adopted

/-- Once both folds have run without error, the capability index is the full replay. -/
def HistoryExact (X : Externals) (L : Ledger) : Prop :=
  ∀ F, L.foldCapability X = (F, .ok ()) →
    ∃ h, F.foldCommittedIds.capabilityHistory = some h ∧
      CapabilityHistory.buildFromBlocks X F.foldCommittedIds.chain = .ok h

/-- Once both folds have run without error, the id index is the set of committed ids. -/
def IdsExact (X : Externals) (L : Ledger) : Prop :=
  ∀ F, L.foldCapability X = (F, .ok ()) →
    F.foldCommittedIds.committedIds = some (chainIds F.foldCommittedIds.chain).toFinset

lemma IndexInv.historyExact {L : Ledger} (inv : IndexInv X L) : HistoryExact X L := by
  intro F ok
  obtain ⟨-, h, present, folded⟩ := inv.foldCapability_ok ok
  have chain_eq : F.chain = L.chain := by
    simpa [ok] using foldCapability_chain (X := X) (L := L)
  refine ⟨h, by simpa using present, ?_⟩
  rw [buildFromBlocks_eq_ok]
  simpa [Folded, chain_eq] using folded

lemma IndexInv.idsExact {L : Ledger} (inv : IndexInv X L) : IdsExact X L := by
  intro F ok
  have invF : IndexInv X F := by simpa [ok] using inv.foldCapability
  simpa using invF.ids.foldCommittedIds_eq.2

/-- Every run whose commits on the tip are admissible or carry no activation, and find the id index
caught up, keeps both indexes exact. -/
theorem indexes_exact_along_runs {s t : PoolState} (init : s.Initial X)
    (run : Reaches (PoolState.step X) (CommitsKeepIndexes X) s t) :
    HistoryExact X t.ledger ∧ IdsExact X t.ledger := by
  have inv : IndexInv X t.ledger := run.invariant (I := fun s => IndexInv X s.ledger)
      (fun _ _ _ inv keeps step => indexInv_step inv keeps step) (indexInv_initial init)
  exact ⟨inv.historyExact, inv.idsExact⟩

/-- A submitted transaction is mined and committed. -/
theorem indexes_exact_along_runs_sample : ∃ s t : PoolState, s.Initial (.plain 0) ∧
    Reaches (PoolState.step (.plain 0)) (CommitsKeepIndexes (.plain 0)) s t ∧
    chainIds t.ledger.chain = ["a"] ∧ HistoryExact (.plain 0) t.ledger ∧
    IdsExact (.plain 0) t.ledger := by
  have init := freshPool_initial (.plain 0)
  have keeps : CommitsKeepIndexes (.plain 0) (drainedPool (.plain 0) "a" [])
      (.commit (stockBlock (.plain 0) "a") (sealedGenesis (.plain 0)).hash) := fun _ =>
    ⟨.inr (by simp [NoActivation, stockBlock, Block.after, withWriteSet, stockTx]), .inr rfl⟩
  have run := (((Reaches.refl (freshPool (.plain 0))).tail (.add (stockTx "a")) trivial
    (freshPool_add _ (by decide))).tail _ trivial (stockedPool_prepare _ "a")).tail _ keeps
    (drainedPool_commit _ "a" [])
  exact ⟨_, _, init, run, chainIds_minedPool _ "a" [], indexes_exact_along_runs init run⟩

/-- A candidate whose first activation is admitted and whose second names no capability. -/
private def halfValid (X : Externals) : Block :=
  (sealedGenesis X).after X [activationTx X "t1" "pdc", activationTx X "t2" "unknown"]

/-- The commit fails and the chain stays, but the history keeps the first activation. -/
private theorem stockedPool_rejects (X : Externals) :
    ∃ a, (stockedPool X "a").step X (.commit (halfValid X) (sealedGenesis X).hash)
      ⟨⟨[sealedGenesis X], [stockTx "a"], 0, 1, some ⟨[a]⟩, 1, some ∅⟩, []⟩ := by
  refine ⟨⟨"pdc", 1, capabilityHash X "pdc" 1, 5, [⟨"governance", [1], .ed25519⟩]⟩, ?_⟩
  have known : lookupCapability "pdc" = some ⟨"pdc", 1⟩ := by decide
  have unknown : lookupCapability "unknown" = none := by decide
  simp [step, call, stockedPool, Ledger.commitMinedBlock, Ledger.commitGate,
    Ledger.foldCapability, halfValid, Block.after, withWriteSet, runInPlace, sealedGenesis,
    genesisBlock, validateBlock, validateTransaction,
    activationTx, apply, check, known, unknown, require,
    activated, bind, Except.bind]

/-- A peer block appended behind the id index. -/
private theorem stockedPool_append (X : Externals) :
    (stockedPool X "a").step X (.appendPeer ((sealedGenesis X).after X [stockTx "x"]))
      ⟨⟨[sealedGenesis X, (sealedGenesis X).after X [stockTx "x"]], [stockTx "a"], 0, 1,
        some ⟨[]⟩, 1, some ∅⟩, []⟩ := by
  have next : Except.isOk (((sealedGenesis X).after X [stockTx "x"]).chainsTo X
      (sealedGenesis X)) = true := by
    rw [after_chainsTo]
    rfl
  simp [step, call, stockedPool, appendPeerBlock, extendsTip,
    next]
  simp [Block.after, withWriteSet, txIds, stockTx]

/-- An empty local commit moves the watermark past the peer block without reading it. -/
private theorem append_then_commit (X : Externals) (peer : Block)
    (same : peer = (sealedGenesis X).after X [stockTx "x"]) :
    PoolState.step X ⟨⟨[sealedGenesis X, peer], [stockTx "a"], 0, 1, some ⟨[]⟩, 1, some ∅⟩, []⟩
      (.commit (peer.after X []) peer.hash)
      ⟨⟨[sealedGenesis X, peer, peer.after X []], [stockTx "a"], 0, 3, some ⟨[]⟩, 3, some ∅⟩,
        []⟩ := by
  have content : peer.transactions = [stockTx "x"] ∧ peer.writeSet = [] := by
    simp [same, Block.after, withWriteSet]
  simp [step, call, Ledger.commitMinedBlock, Ledger.commitGate,
    Ledger.foldCapability, Block.after, withWriteSet, runInPlace, sealedGenesis,
    genesisBlock, validateBlock, validateTransaction,
    foldBlock, PolicyHistory.buildFromBlocks, PolicyHistory.validateBlock,
    PolicyHistory.writtenKeys, PolicyHistory.pendingUpdates, Ledger.pushCommitted, txIds,
    content, stockTx]

/-- Each index goes wrong on some run: a rejected candidate leaves its activation behind, and a
local commit hides an earlier peer block from the id index. -/
theorem indexes_not_exact :
    (¬ ∀ (X : Externals) (s t : PoolState), s.Initial X →
      Reaches (PoolState.step X) anyStep s t → HistoryExact X t.ledger) ∧
    ¬ ∀ (X : Externals) (s t : PoolState), s.Initial X →
      Reaches (PoolState.step X) anyStep s t → IdsExact X t.ledger := by
  have start : Reaches (PoolState.step (.plain 0)) anyStep (freshPool (.plain 0))
      (stockedPool (.plain 0) "a") :=
    (Reaches.refl _).tail _ trivial (freshPool_add _ (by decide))
  refine ⟨fun claim => ?_, fun claim => ?_⟩
  · obtain ⟨a, rejects⟩ := stockedPool_rejects (.plain 0)
    obtain ⟨h, kept, rebuilt⟩ := claim _ _ _ (freshPool_initial _)
      (start.tail _ trivial rejects) _ (foldCapability_of_full rfl)
    simp [foldCommittedIds] at kept
    simp [buildFromBlocks, runInPlace, validateBlock,
      foldCommittedIds, sealedGenesis, genesisBlock, ← kept] at rebuilt
  · have ids := claim _ _ _ (freshPool_initial _) ((start.tail _ trivial
      (stockedPool_append _)).tail _ trivial (append_then_commit _ _ rfl)) _
      (foldCapability_of_full rfl)
    simp [foldCommittedIds, chainIds, txIds, Block.after, withWriteSet,
      sealedGenesis, genesisBlock] at ids

end GlassChain
