import GlassChain.Network.Durability
import GlassChain.Library.Replay
import GlassChain.Library.Tasks

/-!
# The world state of a ledger

A node materialises the write sets of its chain twice, in memory and in storage. Both follow the
ledger by work done later: a committed block is applied to storage and then mirrored in memory, an
adopted chain is stored block by block and both states are rebuilt from the stored blocks, and a
restart rebuilds them again. Failures are logged and not made up for, storage keeps keys that an
abandoned branch wrote, and a restart may refuse the chain whose writes it has just rebuilt. The
states are the fold of the ledger's chain in the quiescent states of runs in which the work is done
in chain order on a backend that does not fail, adopted chains write every key that is stored, and
restarts accept what is stored.
-/

namespace GlassChain

open Library List Option Store Block Ledger Backend Multisig PersistentWrite

variable {B : Multisig} {X : Externals}

namespace PersistentWrite

def value (w : PersistentWrite) : Option Bytes :=
  match w.op with
  | .set value => some value
  | .delete => none

lemma applyToCache_eq : applyToCache = applyWrite stateKey value := by
  funext world w
  unfold applyToCache applyWrite value
  cases w.op <;> rfl

end PersistentWrite

def chainWrites (chain : List Block) : List PersistentWrite := chain.flatMap Block.writeSet

lemma foldl_applyToCache (world : WorldState) (writes : List PersistentWrite) :
    writes.foldl applyToCache world =
      replay stateKey PersistentWrite.value world writes := by
  rw [applyToCache_eq, replay]

lemma worldAfter_eq_replay (chain : List Block) : worldAfter chain =
    replay stateKey PersistentWrite.value ∅ (chainWrites chain) := by
  rw [worldAfter, chainWrites, ← foldl_applyToCache, foldl_flatMap]

def Overwrites (chain : List Block) (world : WorldState) : Prop :=
  ∀ key, (world.lookup key).isSome = true → Written PersistentWrite.stateKey (chainWrites chain) key

inductive Work where
  /-- A committed block is to be applied to storage, -/
  | post (block : Block)
  /-- and then mirrored in memory. -/
  | mirror (block : Block)
  /-- The blocks of an adopted chain are to be stored, -/
  | adopted
  /-- then the states rebuilt from the stored blocks, -/
  | rebuild
  /-- and the new map is to be installed. -/
  | install (world : WorldState)

namespace Work

def posts (work : List Work) : List Block :=
  work.filterMap fun w => match w with
    | .post block => some block
    | _ => none

def mirrors (work : List Work) : List Block :=
  work.filterMap fun w => match w with
    | .mirror block => some block
    | _ => none

variable {front back : List Work} {block : Block}

@[simp]
lemma posts_append : posts (front ++ back) = posts front ++ posts back := filterMap_append

@[simp]
lemma mirrors_append : mirrors (front ++ back) = mirrors front ++ mirrors back := filterMap_append

@[simp]
lemma posts_post : posts (.post block :: back) = block :: posts back := rfl

@[simp]
lemma posts_mirror : posts (.mirror block :: back) = posts back := rfl

@[simp]
lemma mirrors_mirror : mirrors (.mirror block :: back) = block :: mirrors back := rfl

@[simp]
lemma mirrors_post : mirrors (.post block :: back) = mirrors back := rfl

@[simp]
lemma posts_nil : posts [] = [] := rfl

@[simp]
lemma mirrors_nil : mirrors [] = [] := rfl

lemma mem_mirrors {work : List Work} : block ∈ mirrors work ↔ .mirror block ∈ work := by
  unfold mirrors
  rw [mem_filterMap]
  constructor
  · rintro ⟨w, mem, found⟩
    split at found
    · cases found
      exact mem
    · cases found
  · exact fun mem => ⟨_, mem, rfl⟩

end Work

/-- The ledger, its two materialisations and the work outstanding. -/
structure Materialised where
  ledger : Ledger
  world : WorldState
  store : Store
  work : List Work

variable {L : Ledger} {v : ChainView B}

/-- An adopted chain is longer, and numbered from its genesis block on. -/
theorem consecutive_of_replacesChain {blocks : List Block}
    (replaces : replacesChain X L v blocks = true)
    (start : ∀ genesis, blocks.head? = some genesis → genesis.index = 0) :
    L.chain.length < blocks.length ∧ Consecutive blocks := by
  simp only [replacesChain, Bool.and_eq_true] at replaces
  have adopts := replaces.2
  cases blocks with
  | nil => simp [Ledger.adopts] at adopts
  | cons genesis rest =>
    simp only [Ledger.adopts, Bool.and_eq_true, decide_eq_true_eq] at adopts
    obtain ⟨longer, ⟨⟨-, ok⟩, valid⟩, -⟩ := adopts
    have linked := (Linked.genesis (start genesis rfl) valid).candidate rest rfl ok
    exact ⟨longer, linked.consecutive⟩

/-- What happens in a node. A suffix is a block message for each of its blocks. -/
inductive ProjectionEvent (B : Multisig) where
  | submit (tx : Transaction)
  | prepare
  | mine (view : MiningView)
  | block (view : BlockView B) (block : Block)
  | chain (view : ChainView B) (blocks : List Block)
  | work (position : Nat) (backend : Backend)
  | restart (verifierKey : B.PrivateKey) (fresh : Ledger) (backend : Backend)

namespace Materialised

def perform (s : Materialised) (position : Nat) (backend : Backend) : Materialised :=
  match s.work[position]? with
  | none => s
  | some (.post block) =>
    if backend.refuses block.index then { s with work := s.work.eraseIdx position }
    else match s.store.applyBlock block with
      | .ok store => { s with store := store, work := s.work.set position (.mirror block) }
      | .error _ => { s with work := s.work.eraseIdx position }
  | some (.mirror block) => { s with
      world := block.writeSet.foldl PersistentWrite.applyToCache s.world
      work := s.work.eraseIdx position }
  | some .adopted => { s with
      store := s.store.putBlocks backend s.ledger.chain
      work := s.work.set position .rebuild }
  | some .rebuild => match s.store.rebuildWorldState backend with
    | (some world, store) => { s with store := store, work := s.work.set position (.install world) }
    | (none, store) => { s with store := store, work := s.work.eraseIdx position }
  | some (.install world) => { s with world := world, work := s.work.eraseIdx position }

/-- `new_with_storage` and `start`: the ledger is restored, the world state rebuilt from the stored
blocks, and blocks of the ledger that are not stored are applied. -/
def boot (X : Externals) (verifierKey : B.PrivateKey) (backend : Backend) (store : Store)
    (fresh : Ledger) : Materialised :=
  let ledger := restoreLedger X verifierKey store fresh
  match store.rebuildWorldState backend with
  | (world, store) => ⟨ledger, world.getD ∅, store.persist backend ledger.chain, []⟩

def next (X : Externals) (s : Materialised) : ProjectionEvent B → Materialised
  | .submit tx => { s with ledger := (s.ledger.addTransaction X tx).1 }
  | .prepare => { s with ledger := s.ledger.prepareMining.1 }
  | .mine view => { s with
      ledger := s.ledger.receive X (.mine view : LedgerInput B)
      work := s.work ++
        (({ view with finishing := s.ledger } : MiningView).committed X).toList.map .post }
  | .block view block => match view.verdict X block with
    | .append => { s with
        ledger := (s.ledger.appendPeerBlock X block).1
        work := s.work ++ [.post block] }
    | _ => s
  | .chain view blocks => { s with
      ledger := receiveChain X s.ledger view blocks
      work := if replacesChain X s.ledger view blocks then s.work ++ [.adopted] else s.work }
  | .work position backend => s.perform position backend
  | .restart verifierKey fresh backend => boot X verifierKey backend s.store fresh

def Step (X : Externals) (s : Materialised) (event : ProjectionEvent B) (t : Materialised) : Prop :=
  t = s.next X event

def Settled (s : Materialised) : Prop := ∀ w ∈ s.work, ∃ block, w = .post block ∨ w = .mirror block

/-- A committed block is applied when it is the ledger's next block for storage and chains to the
stored tip; one that is not to come any more is refused by the tip check. -/
def InTurn (s : Materialised) (block : Block) : Prop :=
  (s.ledger.chain[s.store.indices.length]? = some block ∧
    ∃ tip, s.store.tip = .ok tip ∧ validateTipChain block tip = .ok ()) ∨
  (block ∉ s.ledger.chain.drop s.store.indices.length ∧
    ∀ tip, s.store.tip = .ok tip → validateTipChain block tip ≠ .ok ())

/-- What keeps the states and the ledger together. -/
def Orderly (X : Externals) (s : Materialised) : ProjectionEvent B → Prop
  | .submit _ | .prepare => True
  | .mine view =>
    (({ view with finishing := s.ledger } : MiningView).committed X).isSome = true → s.Settled
  | .block view block => view.verdict X block = .append → s.Settled
  | .chain view blocks => replacesChain X s.ledger view blocks = true →
      s.work = [] ∧ (∀ genesis, blocks.head? = some genesis → genesis.index = 0) ∧
        Overwrites blocks s.store.state
  | .work position backend => backend = .healthy ∧
      (∀ block, s.work[position]? = some (.post block) → s.InTurn block) ∧
      ∀ block, s.work[position]? = some (.mirror block) →
        ∀ other, Work.mirror other ∈ s.work → block.index ≤ other.index
  | .restart verifierKey fresh backend => backend = .healthy ∧ s.Settled ∧
      (∃ clock fuel, Ledger.new X clock fuel s.ledger.difficulty = some fresh) ∧
      (s.store.storedChain = some [] ∨ ∃ chain, s.store.storedChain = some chain ∧
        restorable X verifierKey fresh.difficulty chain = true)

inductive Follows (s : Materialised) : Prop
  /-- Storage is at height `k` and memory at height `j`; the work to come makes up for the rest. -/
  | behind (j k : Nat) (settled : s.Settled) (order : j ≤ k) (bound : k ≤ s.ledger.chain.length)
      (stored : s.store.Holds (s.ledger.chain.take k))
      (state : Agree s.store.state (worldAfter (s.ledger.chain.take k)))
      (world : Agree s.world (worldAfter (s.ledger.chain.take j)))
      (mirrors : (Work.mirrors s.work).Perm ((s.ledger.chain.take k).drop j))
      (posts : ∃ extra, (Work.posts s.work).Perm (s.ledger.chain.drop k ++ extra))
  /-- A chain was adopted that is longer than what is stored and writes every stored key, -/
  | adopted (work : s.work = [.adopted]) (consecutive : Consecutive s.ledger.chain)
      (shorter : ∀ i, s.ledger.chain.length ≤ i → s.store.getBlock i = none)
      (overwrites : Overwrites s.ledger.chain s.store.state)
  /-- was stored, -/
  | rebuild (work : s.work = [.rebuild]) (stored : s.store.Holds s.ledger.chain)
      (overwrites : Overwrites s.ledger.chain s.store.state)
  /-- and folded. -/
  | install (world : WorldState) (work : s.work = [.install world])
      (stored : s.store.Holds s.ledger.chain)
      (state : Agree s.store.state (worldAfter s.ledger.chain))
      (folded : Agree world (worldAfter s.ledger.chain))

variable {s : Materialised}

/-- With no work outstanding both states are the fold of the chain. -/
theorem Follows.quiescent (follows : s.Follows) (quiet : s.work = []) :
    s.store.Holds s.ledger.chain ∧ Agree s.store.state (worldAfter s.ledger.chain) ∧
      Agree s.world (worldAfter s.ledger.chain) := by
  cases follows with
  | behind j k settled order bound stored state world mirrors posts =>
    obtain ⟨extra, posts⟩ := posts
    have applied : s.ledger.chain.drop k = [] := by
      have := posts.length_eq
      simp only [quiet, Work.posts_nil, length_nil, length_append] at this
      exact length_eq_zero_iff.mp (by omega)
    have whole : s.ledger.chain.take k = s.ledger.chain :=
      take_of_length_le (drop_eq_nil_iff.mp applied)
    have mirrored : (s.ledger.chain.take k).drop j = [] := by
      have := mirrors.length_eq
      simp only [quiet, Work.mirrors_nil, length_nil] at this
      exact length_eq_zero_iff.mp this.symm
    rw [whole] at stored state mirrored
    have all : s.ledger.chain.take j = s.ledger.chain :=
      take_of_length_le (drop_eq_nil_iff.mp mirrored)
    rw [all] at world
    exact ⟨stored, state, world⟩
  | adopted work => simp [work] at quiet
  | rebuild work => simp [work] at quiet
  | install _ work => simp [work] at quiet

lemma Follows.of_quiescent (quiet : s.work = []) (stored : s.store.Holds s.ledger.chain)
    (state : Agree s.store.state (worldAfter s.ledger.chain))
    (world : Agree s.world (worldAfter s.ledger.chain)) : s.Follows := by
  refine .behind s.ledger.chain.length s.ledger.chain.length (by simp [Settled, quiet]) le_rfl
    le_rfl ?_ ?_ ?_ (by simp [quiet]) ⟨[], by simp [quiet]⟩ <;>
    rwa [take_length]

lemma Follows.ledger (follows : s.Follows) {L : Ledger} (same : L.chain = s.ledger.chain) :
    Follows { s with ledger := L } := by
  cases follows with
  | behind j k settled order bound stored state world mirrors posts =>
    refine .behind j k settled order ?_ ?_ ?_ ?_ ?_ ?_ <;> simp only [same] <;> assumption
  | adopted work consecutive shorter overwrites =>
    refine .adopted work ?_ ?_ ?_ <;> simp only [same] <;> assumption
  | rebuild work stored overwrites =>
    refine .rebuild work ?_ ?_ <;> simp only [same] <;> assumption
  | install world work stored state folded =>
    refine .install world work ?_ ?_ ?_ <;> simp only [same] <;> assumption

/-- A settled node stores a part of its chain and the fold of that part. -/
theorem Follows.held (follows : s.Follows) (settled : s.Settled) :
    ∃ chain, s.store.Holds chain ∧ Agree s.store.state (worldAfter chain) := by
  cases follows with
  | behind j k _ order bound stored state => exact ⟨_, stored, state⟩
  | adopted work | rebuild work | install _ work =>
    obtain ⟨b, is_post | is_mirror⟩ := settled _ (work ▸ mem_singleton_self _)
    · cases is_post
    · cases is_mirror

/-- A settled node is behind by the blocks it still works on. -/
theorem Follows.commit (follows : s.Follows) (settled : s.Settled) {L : Ledger} {new : List Block}
    (grown : L.chain = s.ledger.chain ++ new) {block : Block} (small : new = [] ∨ new = [block]) :
    Follows { s with ledger := L, work := s.work ++ [.post block] } := by
  have adopting {w : Work} (work : s.work = [w]) (other : ∀ b, w ≠ .post b ∧ w ≠ .mirror b) :
      False := by
    obtain ⟨b, is_post | is_mirror⟩ := settled w (by simp [work])
    · exact (other b).1 is_post
    · exact (other b).2 is_mirror
  cases follows with
  | behind j k _ order bound stored state world mirrors posts =>
    obtain ⟨extra, posts⟩ := posts
    have taken : L.chain.take k = s.ledger.chain.take k := by
      rw [grown, take_append_of_le_length bound]
    refine .behind j k ?_ order ?_ (taken ▸ stored) (taken ▸ state) ?_ ?_ ?_
    · intro w mem
      rcases mem_append.mp mem with old | added
      · exact settled w old
      · exact ⟨block, .inl (mem_singleton.mp added)⟩
    · simp only [grown, length_append]
      omega
    · have earlier : L.chain.take j = s.ledger.chain.take j := by
        rw [grown, take_append_of_le_length (order.trans bound)]
      simpa only [earlier] using world
    · simpa [taken] using mirrors
    · simp only [grown, drop_append_of_le_length bound, Work.posts_append, Work.posts_post,
        Work.posts_nil]
      rcases small with rfl | rfl
      · exact ⟨extra ++ [block], by simpa using posts.append_right [block]⟩
      · refine ⟨extra, (posts.append_right [block]).trans ?_⟩
        simp only [append_assoc]
        exact Perm.append_left _ perm_append_comm
  | adopted work => exact (adopting work (by simp)).elim
  | rebuild work => exact (adopting work (by simp)).elim
  | install world work => exact (adopting work (by simp)).elim

/-- The adoption of a longer chain when nothing is outstanding. -/
theorem Follows.adopt (follows : s.Follows) (quiet : s.work = []) {L : Ledger}
    (longer : s.ledger.chain.length < L.chain.length) (consecutive : Consecutive L.chain)
    (overwrites : Overwrites L.chain s.store.state) :
    Follows { s with ledger := L, work := s.work ++ [.adopted] } := by
  obtain ⟨stored, -, -⟩ := follows.quiescent quiet
  refine .adopted (by simp [quiet]) consecutive (fun i beyond => ?_) overwrites
  rw [stored i]
  exact getElem?_eq_none (longer.le.trans beyond)

section Behind

variable {front back : List Work} {w : Work} {block : Block}

lemma only_work {v : Work} (work : s.work = [v]) (split : s.work = front ++ w :: back) :
    w = v := by
  have mem : w ∈ s.work := by simp [split]
  simpa [work] using mem

lemma Settled.done (settled : s.Settled) (split : s.work = front ++ w :: back) :
    ∀ v ∈ front ++ back, ∃ block, v = .post block ∨ v = .mirror block := by
  intro v mem
  rcases mem_append.mp mem with old | old
  · exact settled v (by simp [split, old])
  · exact settled v (by simp [split, old])

lemma Follows.applied (follows : s.Follows) (split : s.work = front ++ .post block :: back)
    (placed : s.ledger.chain[s.store.indices.length]? = some block) {tip : Option Block}
    (same : s.store.tip = .ok tip) (chains : validateTipChain block tip = .ok ()) :
    ∃ t, s.store.applyBlock block = .ok t ∧
      Follows { s with store := t, work := front ++ .mirror block :: back } := by
  cases follows with
  | behind j k settled order bound stored state world mirrors posts =>
    obtain ⟨extra, posts⟩ := posts
    rw [stored.length_indices, length_take, Nat.min_eq_left bound] at placed
    obtain rfl : (s.ledger.chain.take k).getLast? = tip := by simpa [stored.tip] using same
    have next : Store.Next (s.ledger.chain.take k) block := stored.validateTipChain_eq_ok.mp chains
    have inside := (List.getElem?_eq_some_iff.mp placed).1
    have taken : s.ledger.chain.take (k + 1) = s.ledger.chain.take k ++ [block] := by
      rw [take_add_one, placed, toList_some]
    have dropped : s.ledger.chain.drop k = block :: s.ledger.chain.drop (k + 1) := by
      obtain ⟨_, rfl⟩ := List.getElem?_eq_some_iff.mp placed
      exact drop_eq_getElem_cons inside
    refine ⟨_, stored.applyBlock_eq_ok.mpr ⟨next, rfl⟩, .behind j (k + 1) ?_ (by omega) inside ?_ ?_
      world ?_ ⟨extra, ?_⟩⟩
    · intro w mem
      simp only [mem_append, mem_cons] at mem
      rcases mem with old | rfl | old
      · exact settled w (by simp [split, old])
      · exact ⟨block, .inr rfl⟩
      · exact settled w (by simp [split, old])
    · simp only [taken]
      exact stored.putBlock next.1
    · simp only [taken, worldAfter_append, applyWrites_state, putBlock_state, foldl_applyToCache]
      exact state.replay _
    · simp only [split, Work.mirrors_append, Work.mirrors_post, Work.mirrors_mirror] at mirrors ⊢
      rw [taken, drop_append_of_le_length (by simp; omega)]
      refine perm_middle.trans ?_
      exact (mirrors.cons block).trans (perm_append_singleton block _).symm
    · simp only [split, Work.posts_append, Work.posts_post, Work.posts_mirror, dropped,
        cons_append] at posts ⊢
      exact (perm_middle.symm.trans posts).cons_inv
  | adopted work | rebuild work | install _ work =>
    cases only_work work split

/-- A block that is not to come any more is not applied. -/
theorem Follows.passed (follows : s.Follows) (split : s.work = front ++ .post block :: back)
    (past : block ∉ s.ledger.chain.drop s.store.indices.length) :
    Follows { s with work := front ++ back } := by
  cases follows with
  | behind j k settled order bound stored state world mirrors posts =>
    obtain ⟨extra, posts⟩ := posts
    rw [stored.length_indices, length_take, Nat.min_eq_left bound] at past
    refine .behind j k (settled.done split) order bound stored state world ?_ ?_
    · simpa [split] using mirrors
    · simp only [split, Work.posts_append, Work.posts_post] at posts ⊢
      -- it was one of the superfluous ones
      have superfluous : block ∈ extra := by
        have mem := posts.mem_iff.mp (by simp : block ∈ _ ++ block :: _)
        exact (mem_append.mp mem).resolve_left past
      obtain ⟨left, right, rfl⟩ := append_of_mem superfluous
      refine ⟨left ++ right, ?_⟩
      have moved : (s.ledger.chain.drop k ++ (left ++ block :: right)).Perm
          (block :: (s.ledger.chain.drop k ++ (left ++ right))) := by
        simp only [← append_assoc]
        exact perm_middle
      exact (perm_middle.symm.trans (posts.trans moved)).cons_inv
  | adopted work | rebuild work | install _ work =>
    cases only_work work split

lemma Follows.mirrored (follows : s.Follows) (split : s.work = front ++ .mirror block :: back)
    (first : ∀ other, Work.mirror other ∈ s.work → block.index ≤ other.index) :
    Follows { s with
      world := block.writeSet.foldl PersistentWrite.applyToCache s.world
      work := front ++ back } := by
  cases follows with
  | behind j k settled order bound stored state world mirrors posts =>
    have listed : block ∈ (s.ledger.chain.take k).drop j :=
      mirrors.mem_iff.mp (Work.mem_mirrors.mpr (by simp [split]))
    have nonempty : j < k := by
      have := length_pos_of_mem listed
      simp only [length_drop, length_take] at this
      omega
    have inside : j < (s.ledger.chain.take k).length := by
      rw [length_take]
      omega
    have dropped := drop_eq_getElem_cons inside
    -- every block to be mirrored is at `j` or above, and the one at `j` is among them
    have lowest : block = (s.ledger.chain.take k)[j] := by
      have least : block.index ≤ j := by
        have mem : Work.mirror (s.ledger.chain.take k)[j] ∈ s.work := by
          refine Work.mem_mirrors.mp (mirrors.mem_iff.mpr ?_)
          rw [dropped]
          exact mem_cons_self
        have index := stored.consecutive j _ (getElem?_eq_getElem inside)
        exact index ▸ first _ mem
      obtain ⟨i, placed⟩ := mem_iff_getElem?.mp listed
      rw [getElem?_drop] at placed
      have index := stored.consecutive _ _ placed
      obtain rfl : i = 0 := by omega
      simpa [getElem?_eq_getElem inside] using placed.symm
    have taken : s.ledger.chain.take (j + 1) = s.ledger.chain.take j ++ [block] := by
      rw [take_add_one, lowest, getElem_take, getElem?_eq_getElem (by omega), toList_some]
    refine .behind (j + 1) k (settled.done split) nonempty bound stored state ?_ ?_ ?_
    · simp only [taken, worldAfter_append, foldl_applyToCache]
      exact world.replay _
    · simp only [split, Work.mirrors_append, Work.mirrors_mirror] at mirrors ⊢
      rw [dropped, ← lowest] at mirrors
      exact (perm_middle.symm.trans mirrors).cons_inv
    · simpa [split] using posts
  | adopted work | rebuild work | install _ work =>
    cases only_work work split

end Behind

section Adopting

variable {store : Store} {chain : List Block}

/-- The put loop overwrites what was stored under the indices of the chain. -/
theorem getBlock_putBlocks (consecutive : Consecutive chain) (i : Nat) :
    (store.putBlocks .healthy chain).getBlock i = (chain[i]?).or (store.getBlock i) := by
  induction chain using List.reverseRecOn with
  | nil => simp [putBlocks]
  | append_singleton front last ih =>
    have index : last.index = front.length := consecutive.last
    have put : store.putBlocks .healthy (front ++ [last]) =
        (store.putBlocks .healthy front).putBlock last := by
      simp [putBlocks, healthy]
    rw [put]
    by_cases new : i = last.index
    · have found : ((store.putBlocks .healthy front).putBlock last).getBlock i = some last := by
        rw [new]
        exact AList.lookup_insert _
      rw [found, new, index, getElem?_concat_length, some_or]
    · have old : ((store.putBlocks .healthy front).putBlock last).getBlock i =
          (store.putBlocks .healthy front).getBlock i := AList.lookup_insert_ne new
      have same : (front ++ [last])[i]? = front[i]? := by
        by_cases inside : i < front.length
        · rw [getElem?_append_left inside]
        · have beyond : (front ++ [last]).length ≤ i := by
            simp only [length_append, length_singleton]
            omega
          rw [getElem?_eq_none beyond, getElem?_eq_none (by omega)]
      rw [old, ih consecutive.front, same]

lemma putBlocks_state (backend : Backend) : (store.putBlocks backend chain).state = store.state := by
  induction chain generalizing store with
  | nil => rfl
  | cons b rest ih =>
    simp only [putBlocks, foldl_cons] at ih ⊢
    split <;> rw [ih]
    rfl

lemma filterMap_of_mapM {α β : Type} {f : α → Option β} {l : List α} {r : List β}
    (all : l.mapM f = some r) : l.filterMap f = r := by
  induction l generalizing r with
  | nil => simpa using all
  | cons a l ih =>
    simp only [mapM_cons, bind_eq_bind, bind_eq_some_iff] at all
    obtain ⟨b, first, rest, later, same⟩ := all
    obtain rfl : b :: rest = r := by simpa using same
    rw [filterMap_cons_some first, ih later]

/-- A rebuild from the stored blocks of a chain that writes every stored key. -/
theorem exists_rebuilt (stored : store.Holds chain) (overwrites : Overwrites chain store.state) :
    ∃ t, store.rebuildWorldState .healthy = (some (worldAfter chain), t) ∧ t.Holds chain ∧
      Agree t.state (worldAfter chain) := by
  have writes : store.storedWrites = chainWrites chain := by
    rw [storedWrites, filterMap_of_mapM stored.storedChain, chainWrites]
  simp only [rebuildWorldState, healthy, writes, foldl_applyToCache, worldAfter_eq_replay]
  exact ⟨_, rfl, stored, replay_overwrites overwrites⟩

/-- A state that is the fold of the chain stays so when the chain is folded over it. -/
theorem overwrites_of_agree (state : Agree store.state (worldAfter chain)) :
    Overwrites chain store.state := by
  intro key held
  rw [state key, worldAfter_eq_replay] at held
  exact written_of_lookup_replay held

end Adopting

lemma Follows.stored (follows : s.Follows) (work : s.work = [.adopted]) :
    Follows { s with store := s.store.putBlocks .healthy s.ledger.chain, work := [.rebuild] } := by
  cases follows with
  | behind j k settled =>
    obtain ⟨b, is_post | is_mirror⟩ := settled .adopted (by simp [work])
    · cases is_post
    · cases is_mirror
  | adopted _ consecutive shorter overwrites =>
    refine .rebuild rfl (fun i => ?_) (by simpa only [putBlocks_state] using overwrites)
    rw [getBlock_putBlocks consecutive]
    by_cases inside : i < s.ledger.chain.length
    · rw [getElem?_eq_getElem inside, some_or]
    · rw [shorter i (by omega), or_none]
  | rebuild other | install _ other => simp [other] at work

lemma Follows.rebuilt (follows : s.Follows) (work : s.work = [.rebuild]) :
    ∃ world store, s.store.rebuildWorldState .healthy = (some world, store) ∧
      Follows { s with store := store, work := [.install world] } := by
  cases follows with
  | behind j k settled =>
    obtain ⟨b, is_post | is_mirror⟩ := settled .rebuild (by simp [work])
    · cases is_post
    · cases is_mirror
  | rebuild _ stored overwrites =>
    obtain ⟨t, rebuilt, held, folded⟩ := exists_rebuilt stored overwrites
    exact ⟨_, t, rebuilt, .install _ rfl held folded (.refl _)⟩
  | adopted other | install _ other => simp [other] at work

lemma Follows.installed (follows : s.Follows) {world : WorldState}
    (work : s.work = [.install world]) : Follows { s with world := world, work := [] } := by
  cases follows with
  | behind j k settled =>
    obtain ⟨b, is_post | is_mirror⟩ := settled (.install world) (by simp [work])
    · cases is_post
    · cases is_mirror
  | install other same stored state folded =>
    obtain rfl : other = world := by simpa [same] using work
    exact .of_quiescent rfl stored state folded
  | adopted other | rebuild other => simp [other] at work

/-- When a chain is being adopted nothing else is outstanding. -/
theorem Follows.alone (follows : s.Follows) {w : Work} (mem : w ∈ s.work)
    (adopting : ∀ block, w ≠ .post block ∧ w ≠ .mirror block) : s.work = [w] := by
  cases follows with
  | behind j k settled =>
    obtain ⟨b, is_post | is_mirror⟩ := settled w mem
    · exact absurd is_post (adopting b).1
    · exact absurd is_mirror (adopting b).2
  | adopted work | rebuild work | install _ work =>
    rw [work] at mem ⊢
    rw [mem_singleton.mp mem]

lemma Follows.perform (follows : s.Follows) {position : Nat}
    (turn : ∀ block, s.work[position]? = some (.post block) → s.InTurn block)
    (first : ∀ block, s.work[position]? = some (.mirror block) →
      ∀ other, Work.mirror other ∈ s.work → block.index ≤ other.index) :
    (s.perform position .healthy).Follows := by
  unfold Materialised.perform
  rcases found : s.work[position]? with _ | w
  · exact follows
  obtain ⟨front, back, split, erased, replaced⟩ := exists_split found
  have alone (adopting : ∀ block, w ≠ .post block ∧ w ≠ .mirror block) :
      s.work = [w] ∧ front = [] ∧ back = [] := by
    have work := follows.alone (mem_of_getElem? found) adopting
    have length := congrArg List.length (split.symm.trans work)
    simp only [length_append, length_cons, length_nil] at length
    exact ⟨work, length_eq_zero_iff.mp (by omega), length_eq_zero_iff.mp (by omega)⟩
  cases w with
  | post block =>
    simp only [healthy, Bool.false_eq_true, if_false, erased, replaced]
    obtain ⟨placed, tip, same, chains⟩ | ⟨past, stale⟩ := turn block found
    · obtain ⟨t, applied, follows⟩ := follows.applied split placed same chains
      simpa only [applied] using follows
    · have refused (t : Store) : s.store.applyBlock block ≠ .ok t := by
        intro applied
        obtain ⟨tip, same, applied⟩ := bind_eq_ok.mp applied
        obtain ⟨_, chains, -⟩ := bind_eq_ok.mp applied
        exact stale tip same chains
      have passed := follows.passed split past
      split
      · exact absurd ‹_› (refused _)
      · exact passed
  | mirror block =>
    simp only [erased]
    exact follows.mirrored split (first block found)
  | adopted =>
    obtain ⟨work, rfl, rfl⟩ := alone (by simp)
    simpa only [replaced, nil_append] using follows.stored work
  | rebuild =>
    obtain ⟨work, rfl, rfl⟩ := alone (by simp)
    obtain ⟨world, store, rebuilt, follows⟩ := follows.rebuilt work
    simpa only [rebuilt, replaced, nil_append] using follows
  | install world =>
    obtain ⟨work, rfl, rfl⟩ := alone (by simp)
    simpa only [erased, nil_append] using follows.installed work

variable {store : Store}

/-- The persist loop has nothing to do for blocks that are stored. -/
theorem persist_of_stored {chain : List Block} {backend : Backend}
    (stored : ∀ b ∈ chain, (store.getBlock b.index).isSome = true) :
    store.persist backend chain = store := by
  induction chain with
  | nil => rfl
  | cons b rest ih =>
    rw [persist, foldl_cons, stored b (by simp), Bool.true_or, if_pos rfl]
    exact ih fun c mem => stored c (by simp [mem])

lemma persist_genesis {genesis : Block} (stored : store.Holds []) (index : genesis.index = 0) :
    store.persist .healthy [genesis] = (store.putBlock genesis).applyWrites genesis := by
  have missing : store.getBlock genesis.index = none := stored _
  have applied := stored.applyBlock_eq_ok.mpr ⟨⟨index, by simp⟩, rfl⟩
  simp [persist, missing, healthy, applied]

/-- A node that starts on an empty store, or on a chain it accepts. -/
theorem Follows.boot {chain : List Block} (stored : store.Holds chain)
    (state : Agree store.state (worldAfter chain)) {clock : Nat → Nat} {fuel difficulty : Nat}
    {fresh : Ledger} (created : Ledger.new X clock fuel difficulty = some fresh)
    {verifierKey : B.PrivateKey}
    (accepted : chain = [] ∨ restorable X verifierKey fresh.difficulty chain = true) :
    (boot X verifierKey .healthy store fresh).Follows := by
  have restored : restoreLedger X verifierKey store fresh =
      if restorable X verifierKey fresh.difficulty chain then { fresh with chain := chain }
      else fresh := by
    simp only [restoreLedger, stored.storedChain]
  obtain ⟨t, rebuilt, held, folded⟩ := exists_rebuilt stored (overwrites_of_agree state)
  simp only [Materialised.boot, rebuilt, getD_some, restored]
  rcases accepted with rfl | ok
  · -- the genesis block of the fresh ledger is applied to the empty store
    obtain ⟨genesis, mined, rfl⟩ := map_eq_some_iff.mp created
    have spec := mine_spec mined
    have silent : genesis.writeSet = [] := spec.writeSet
    have plain : worldAfter [genesis] = worldAfter [] := worldAfter_plain (by simpa using silent)
    simp only [restorable, Bool.false_eq_true, if_false]
    rw [persist_genesis held spec.index]
    refine .of_quiescent rfl (held.putBlock spec.index) ?_ ?_
    · simpa [silent, plain] using folded
    · simpa only [plain] using Agree.refl _
  · have all : ∀ b ∈ chain, (t.getBlock b.index).isSome = true := by
      intro b mem
      obtain ⟨i, placed⟩ := mem_iff_getElem?.mp mem
      rw [held.consecutive i b placed, held i, placed, isSome_some]
    simp only [ok, if_true]
    rw [persist_of_stored all]
    exact .of_quiescent rfl held folded (.refl _)

lemma Follows.next (follows : s.Follows) {event : ProjectionEvent B} (orderly : s.Orderly X event) :
    (s.next X event).Follows := by
  cases event with
  | submit tx =>
    refine follows.ledger ?_
    obtain e | e | e | ⟨-, -, e⟩ := s.ledger.addTransaction_cases X tx <;> simp [e]
  | prepare =>
    refine follows.ledger ?_
    unfold prepareMining
    split <;> rfl
  | mine view =>
    have grown := receive_mine_chain (X := X) (B := B) (L := s.ledger) view
    simp only [Materialised.next]
    rcases committed : ({ view with finishing := s.ledger } : MiningView).committed X with _ | b
    · rw [committed] at grown
      simpa using follows.ledger (by simpa using grown)
    · rw [committed] at grown
      exact follows.commit (orderly (by simp [committed])) grown (.inr rfl)
  | block view block =>
    simp only [Materialised.next]
    split
    · rename_i admitted
      obtain e | ⟨-, e⟩ := appendPeerBlock_cases X s.ledger block
      · have kept : (s.ledger.appendPeerBlock X block).1.chain = s.ledger.chain ++ [] := by simp [e]
        exact follows.commit (orderly admitted) kept (.inl rfl)
      · have grown : (s.ledger.appendPeerBlock X block).1.chain = s.ledger.chain ++ [block] := by
          simp [e]
        exact follows.commit (orderly admitted) grown (.inr rfl)
    · exact follows
  | chain view blocks =>
    simp only [Materialised.next, receiveChain_eq]
    split
    · rename_i replaces
      obtain ⟨quiet, start, overwrites⟩ := orderly replaces
      obtain ⟨longer, consecutive⟩ := consecutive_of_replacesChain replaces start
      exact follows.adopt quiet longer consecutive overwrites
    · exact follows
  | work position backend =>
    obtain ⟨rfl, turn, first⟩ := orderly
    exact follows.perform turn first
  | restart verifierKey fresh backend =>
    obtain ⟨rfl, settled, ⟨clock, fuel, created⟩, accepted⟩ := orderly
    obtain ⟨chain, stored, state⟩ := follows.held settled
    refine Follows.boot stored state created ?_
    simp only [stored.storedChain, Option.some.injEq] at accepted
    obtain rfl | ⟨_, rfl, ok⟩ := accepted
    · exact .inl rfl
    · exact .inr ok

/-- In every orderly run of a node that starts on an empty store, both states are the fold of the
ledger's chain whenever no work is outstanding. -/
theorem worlds_fold_ledger {clock : Nat → Nat} {fuel difficulty : Nat}
    (created : Ledger.new X clock fuel difficulty = some L) {verifierKey : B.PrivateKey}
    {t : Materialised}
    (run : Reaches (Step X) (Orderly X (B := B)) (boot X verifierKey .healthy Store.empty L) t)
    (quiet : t.work = []) :
    Agree t.world (worldAfter t.ledger.chain) ∧ Agree t.store.state (worldAfter t.ledger.chain) := by
  have follows : t.Follows := by
    refine run.invariant (I := Follows) ?_ ?_
    · rintro s event _ follows orderly rfl
      exact follows.next orderly
    · exact Follows.boot holds_empty (.refl _) created (.inl rfl)
  obtain ⟨-, state, world⟩ := follows.quiescent quiet
  exact ⟨world, state⟩

end Materialised

/-- The first block after genesis, without transactions. -/
def idleBlock (X : Externals) : Block := (sealedGenesis X).after X []

def idleChain (X : Externals) : List Block :=
  [sealedGenesis X, idleBlock X, (idleBlock X).after X []]

lemma idleChain_consecutive (X : Externals) : Consecutive (idleChain X) := by
  intro i b placed
  match i with
  | 0 | 1 | 2 =>
    cases placed
    rfl
  | i + 3 => simp [idleChain] at placed

/-- It takes the place of every shorter chain of difficulty zero from the same genesis. -/
theorem replacesChain_idle (start : L.chain.head? = some (sealedGenesis X))
    (short : L.chain.length < 3) (zero : L.difficulty = 0) (open_ : v.endorsement = none) :
    replacesChain X L v (idleChain X) = true := by
  have plain : ∀ b ∈ idleChain X, b.certificate = none ∧ b.writeSet = [] := by
    simp [idleChain, idleBlock, sealedGenesis, genesisBlock, Block.after, withWriteSet]
  have audited : verifyChainCertificates X v.verifierKey (idleChain X) v.bootstrap = .ok () := by
    simp only [verifyChainCertificates, ChainAudit.foldlM_plain plain]
    rfl
  have linked (tip : Block) : ((tip.after X []).chainsTo X tip).isOk = true :=
    isOk_iff.mpr (after_chainsTo X tip [])
  have sealed : (sealedGenesis X).isValid X = true := isValid_iff.mpr rfl
  have work (b : Block) : b.hasValidPow 0 = true := by simp [hasValidPow, hasLeadingZeros]
  have silent (tip : Block) (h : CapabilityHistory) :
      h.validateBlock X (tip.after X []) = (h, .ok ()) := by
    simp [CapabilityHistory.validateBlock, Block.after, withWriteSet]
  have adopts : L.adopts X (idleChain X) = true := by
    simp [Ledger.adopts, idleChain, short, start, zero, candidateBlocksOk, linked,
      blockConsensusAdmissible, work, sealed, silent, idleBlock]
  simp only [replacesChain, enforceChainEndorsements, open_, audited, adopts]
  rfl

/-- A node with nothing outstanding adopts it. -/
theorem Materialised.next_idle {s : Materialised} (quiet : s.work = [])
    (start : s.ledger.chain.head? = some (sealedGenesis X)) (short : s.ledger.chain.length < 3)
    (zero : s.ledger.difficulty = 0) (open_ : v.endorsement = none) :
    s.next X (.chain v (idleChain X)) =
      ⟨{ s.ledger with chain := idleChain X }.resetIndexes, s.world, s.store, [.adopted]⟩ := by
  simp [next, receiveChain_eq, replacesChain_idle start short zero open_, quiet]

namespace Materialised

def note : PersistentWrite := ⟨"main", "notes", "a", .set [1], .pub⟩

variable (X : Externals)

def noteBlock : Block :=
  Block.withWriteSet X 0 ((sealedGenesis X).index + 1) [] (sealedGenesis X).hash [note]

lemma noteBlock_chainsTo : (noteBlock X).chainsTo X (sealedGenesis X) = .ok () :=
  withWriteSet_chainsTo X 0 (sealedGenesis X) _ _

lemma lookup_note :
    (worldAfter [sealedGenesis X, noteBlock X]).lookup note.stateKey = some [1] := by
  have folded : worldAfter [sealedGenesis X, noteBlock X] = note.applyToCache ∅ := rfl
  rw [folded]
  exact AList.lookup_insert _

noncomputable def freshNode : Materialised :=
  boot X (sampleKey 1) .healthy Store.empty (freshPool X).ledger

noncomputable def freshView : BlockView (Multisig.symbolic 48) :=
  undisturbedView (freshPool X).ledger (openState _)

lemma freshNode_start : (freshNode X).ledger = (freshPool X).ledger ∧ (freshNode X).work = [] :=
  ⟨rfl, rfl⟩

lemma freshNode_quiescent :
    (freshNode X).store.Holds [sealedGenesis X] ∧ Agree (freshNode X).store.state ∅ ∧
      Agree (freshNode X).world ∅ := by
  have follows : (freshNode X).Follows := Follows.boot holds_empty (.refl _) (new_zero X) (.inl rfl)
  have plain : worldAfter [sealedGenesis X] = ∅ :=
    worldAfter_plain (by simp [sealedGenesis, genesisBlock])
  obtain ⟨stored, state, world⟩ := follows.quiescent (freshNode_start X).2
  rw [(freshNode_start X).1] at stored state world
  exact ⟨stored, plain ▸ state, plain ▸ world⟩

noncomputable def notedNode : Materialised := { freshNode X with
  ledger := { (freshPool X).ledger with chain := [sealedGenesis X, noteBlock X] }
  work := [.post (noteBlock X)] }

lemma freshNode_note :
    Step X (freshNode X) (.block (freshView X) (noteBlock X)) (notedNode X) := by
  have admitted : (freshView X).verdict X (noteBlock X) = .append :=
    fresh_admits (noteBlock_chainsTo X) rfl rfl rfl
  simp only [Step, next, admitted, freshNode_start, nil_append,
    freshPool_append (noteBlock_chainsTo X), notedNode]

noncomputable def takenNode : Materialised := { notedNode X with
  store := ((freshNode X).store.putBlock (noteBlock X)).applyWrites (noteBlock X)
  world := note.applyToCache (freshNode X).world
  work := [] }

/-- The backend takes the note, -/
theorem takenNode_reached :
    Reaches (Step X) (Orderly X (B := symbolic 48)) (freshNode X) (takenNode X) := by
  obtain ⟨stored, -, -⟩ := freshNode_quiescent X
  have next : Store.Next [sealedGenesis X] (noteBlock X) := ⟨rfl, by simp [noteBlock, withWriteSet]⟩
  have applied := stored.applyBlock_eq_ok.mpr ⟨next, rfl⟩
  have turn : (notedNode X).InTurn (noteBlock X) := by
    have height : (notedNode X).store.indices.length = 1 := stored.length_indices
    refine .inl ⟨by rw [height]; rfl, _, stored.tip, stored.validateTipChain_eq_ok.mpr next⟩
  have first : Orderly X (notedNode X) (.work 0 .healthy : ProjectionEvent (symbolic 48)) := by
    refine ⟨rfl, fun block found => ?_, fun block found => ?_⟩
    · obtain rfl : noteBlock X = block := by simpa [notedNode] using found
      exact turn
    · simp [notedNode] at found
  have second : Step X (notedNode X) (.work 0 .healthy : ProjectionEvent (symbolic 48))
      { notedNode X with
        store := ((freshNode X).store.putBlock (noteBlock X)).applyWrites (noteBlock X)
        work := [.mirror (noteBlock X)] } := by
    simp [Step, Materialised.next, perform, notedNode, healthy, applied]
  have start : Reaches (Step X) (Orderly X) (freshNode X) (notedNode X) :=
    (Reaches.refl _).tail _ (fun _ => by simp [Settled, freshNode_start]) (freshNode_note X)
  exact (start.tail _ first second).tail (.work 0 .healthy) (by simp [Orderly, notedNode]) rfl

/-- and both states have it. -/
theorem taken_note_is_folded : ∃ t : Materialised,
    t.work = [] ∧ t.ledger.chain = [sealedGenesis (.plain 0), noteBlock (.plain 0)] ∧
    Agree t.world (worldAfter t.ledger.chain) ∧
    Agree t.store.state (worldAfter t.ledger.chain) :=
  ⟨_, rfl, rfl, worlds_fold_ledger (new_zero _) (takenNode_reached (.plain 0)) rfl⟩

/-- Then it adopts a longer chain without the note, and stores and rebuilds without a failure. -/
theorem abandoned_note_is_stored : ∃ t : Materialised,
    Reaches (Step X (B := symbolic 48)) anyStep (freshNode X) t ∧
    t.work = [] ∧ t.ledger.chain = idleChain X ∧ t.store.state.lookup note.stateKey = some [1] := by
  let stored := (takenNode X).store.putBlocks .healthy (idleChain X)
  obtain ⟨held, -, -⟩ := freshNode_quiescent X
  have holds : stored.Holds (idleChain X) := by
    intro i
    rw [getBlock_putBlocks (idleChain_consecutive X)]
    by_cases inside : i < 3
    · rw [getElem?_eq_getElem inside, some_or]
    · have old : (takenNode X).store.getBlock i = none := by
        refine ((held.putBlock rfl) i).trans (getElem?_eq_none ?_)
        simp
        omega
      rw [getElem?_eq_none (by simpa [idleChain] using inside), old]
      rfl
  have rebuilt : stored.rebuildWorldState .healthy = (some ∅, stored) := by
    have silent : stored.storedWrites = [] := by
      rw [storedWrites, filterMap_of_mapM holds.storedChain]
      rfl
    simp [rebuildWorldState, healthy, silent]
  let L := { (takenNode X).ledger with chain := idleChain X }.resetIndexes
  have adopted : Step X (takenNode X) (.chain ⟨none, none, sampleKey 1⟩ (idleChain X))
      ⟨L, (takenNode X).world, (takenNode X).store, [.adopted]⟩ :=
    (next_idle (B := symbolic 48) rfl rfl (by simp [takenNode, notedNode]) rfl rfl).symm
  have folded : Step X ⟨L, (takenNode X).world, stored, [.rebuild]⟩
      (.work 0 .healthy : ProjectionEvent (symbolic 48))
      ⟨L, (takenNode X).world, stored, [.install ∅]⟩ := by
    simp [Step, Materialised.next, perform, rebuilt]
  have run := ((takenNode_reached X).weaken fun _ _ _ => trivial).tail _ trivial adopted
  have put : Step X ⟨L, (takenNode X).world, (takenNode X).store, [.adopted]⟩
      (.work 0 .healthy : ProjectionEvent (symbolic 48))
      ⟨L, (takenNode X).world, stored, [.rebuild]⟩ := rfl
  have run := (run.tail _ trivial put).tail _ trivial folded
  refine ⟨_, run.tail (.work 0 .healthy) trivial rfl, rfl, rfl, ?_⟩
  show stored.state.lookup note.stateKey = some [1]
  rw [putBlocks_state]
  exact AList.lookup_insert _

/-- A backend that does not take the note: the node has nothing more to do, and neither state has
it. And the note of an abandoned branch, in storage for good. -/
theorem notes_lost_and_kept :
    (∃ t : Materialised, Reaches (Step (.plain 0) (B := symbolic 48)) anyStep
        (boot (.plain 0) (sampleKey 1) .healthy Store.empty (freshPool (.plain 0)).ledger) t ∧
      t.work = [] ∧ t.ledger.chain = [sealedGenesis (.plain 0), noteBlock (.plain 0)] ∧
      ¬Agree t.world (worldAfter t.ledger.chain) ∧
      ¬Agree t.store.state (worldAfter t.ledger.chain)) ∧
    ∃ t : Materialised, Reaches (Step (.plain 0) (B := symbolic 48)) anyStep
        (boot (.plain 0) (sampleKey 1) .healthy Store.empty (freshPool (.plain 0)).ledger) t ∧
      t.work = [] ∧ t.ledger.chain = idleChain (.plain 0) ∧
      ¬Agree t.store.state (worldAfter t.ledger.chain) := by
  constructor
  · have failed : Step (.plain 0) (notedNode (.plain 0))
        (.work 0 ⟨fun _ => true, none⟩ : ProjectionEvent (symbolic 48))
        { notedNode (.plain 0) with work := [] } := rfl
    have start : Reaches (Step (.plain 0)) anyStep (freshNode (.plain 0)) (notedNode (.plain 0)) :=
      (Reaches.refl _).tail _ trivial (freshNode_note (.plain 0))
    obtain ⟨-, state, world⟩ := freshNode_quiescent (.plain 0)
    have absent {m : WorldState} (none : Agree m ∅) :
        ¬Agree m (worldAfter [sealedGenesis (.plain 0), noteBlock (.plain 0)]) := by
      intro same
      have held := same note.stateKey
      rw [none note.stateKey, lookup_note] at held
      simp at held
    exact ⟨_, start.tail _ trivial failed, rfl, rfl, absent world, absent state⟩
  · obtain ⟨t, run, quiet, chain, held⟩ := abandoned_note_is_stored (.plain 0)
    refine ⟨t, run, quiet, chain, fun same => ?_⟩
    have missing : (worldAfter (idleChain (.plain 0))).lookup note.stateKey = none := rfl
    rw [same note.stateKey, chain, missing] at held
    cases held

end Materialised

end GlassChain
