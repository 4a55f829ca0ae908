import GlassChain.Network.Admission

/-!
# Storage

A storage backend that returns what was stored: the blocks by index, and the entries under `ws:`.
The in-memory and the `redb` backend apply a block and its write set in one atomic section. A
restart reads the stored blocks back and checks them by rules of its own.
-/

namespace GlassChain

open Library List

/-- The stored blocks, each under its own index, and the stored world state. -/
structure Store where
  blocks : AList fun _ : Nat => Block
  state : WorldState
  keyed : ∀ index block, blocks.lookup index = some block → block.index = index

namespace Store

def empty : Store := ⟨∅, ∅, by simp⟩

def getBlock (s : Store) (index : Nat) : Option Block := s.blocks.lookup index

def latestBlockIndex (s : Store) : Option Nat := s.blocks.keys.max?

def putBlock (s : Store) (block : Block) : Store where
  blocks := s.blocks.insert block.index block
  state := s.state
  keyed := by
    intro index other found
    by_cases same : index = block.index
    · subst same
      rw [AList.lookup_insert, Option.some.injEq] at found
      rw [found]
    · rw [AList.lookup_insert_ne same] at found
      exact s.keyed index other found

/-- `put_state` and `delete_state` for each write of the block. -/
def applyWrites (s : Store) (block : Block) : Store :=
  { s with state := block.writeSet.foldl PersistentWrite.applyToCache s.state }

end Store

/-- The block chains to the stored tip; an empty store takes only the block with index 0. -/
def validateTipChain (block : Block) (tip : Option Block) : Except CoreError Unit :=
  match tip with
  | none => require (block.index == 0) (.invalidBlock
      s!"block {block.index} does not chain to the empty store")
  | some tip => require (block.index == tip.index + 1 && block.previousHash == tip.hash)
      (.invalidBlock s!"stale tip: block {block.index} does not chain to stored tip {tip.index}")

namespace Store

def tip (s : Store) : Except CoreError (Option Block) :=
  match s.latestBlockIndex with
  | none => .ok none
  | some index => match s.getBlock index with
    | none => .error (.storage s!"block {index} missing from store")
    | some tip => .ok (some tip)

def applyBlock (s : Store) (block : Block) : Except CoreError Store := do
  let tip ← s.tip
  validateTipChain block tip
  return (s.putBlock block).applyWrites block

def indices (s : Store) : List Nat :=
  match s.latestBlockIndex with
  | none => []
  | some latest => List.range (latest + 1)

/-- The writes of the stored blocks, in order; a missing block is skipped. -/
def storedWrites (s : Store) : List PersistentWrite :=
  (s.indices.filterMap s.getBlock).flatMap Block.writeSet

def storedChain (s : Store) : Option (List Block) := s.indices.mapM s.getBlock

end Store

/-- The keys that start with `front`, in order. -/
def listStateKeys (state : WorldState) (front : String) : List String :=
  (state.keys.filter fun key => front.toList.isPrefixOf key.toList).mergeSort fun a b => a ≤ b

lemma mem_listStateKeys {state : WorldState} {front key : String} :
    key ∈ listStateKeys state front ↔ key ∈ state ∧ ∃ rest, key = front ++ rest := by
  simp only [listStateKeys, mem_mergeSort, mem_filter, AList.mem_keys, isPrefixOf_iff_prefix]
  refine and_congr_right fun _ => ⟨?_, ?_⟩
  · rintro ⟨rest, same⟩
    refine ⟨String.ofList rest, String.toList_inj.mp ?_⟩
    rw [String.toList_append, String.toList_ofList, same]
  · rintro ⟨rest, rfl⟩
    rw [String.toList_append]
    exact prefix_append _ _

/-- What may go wrong in a backend during an operation: blocks it does not take, by index, and the
number of state writes after which one fails. -/
structure Backend where
  refuses : Nat → Bool
  stops : Option Nat

def Backend.healthy : Backend := ⟨fun _ => false, none⟩

namespace Store

/-- The put loop after a chain was adopted: a failure is logged and the loop goes on. -/
def putBlocks (backend : Backend) (s : Store) (chain : List Block) : Store :=
  chain.foldl (fun s block => if backend.refuses block.index then s else s.putBlock block) s

/-- The persist loop of `start`, for the blocks that are not stored. -/
def persist (backend : Backend) (s : Store) (chain : List Block) : Store :=
  chain.foldl (fun s block =>
    if (s.getBlock block.index).isSome || backend.refuses block.index then s
    else match s.applyBlock block with
      | .ok t => t
      | .error _ => s) s

/-- `rebuild_world_state`: fold the stored write sets into a new map, and once more into the stored
state. A failing write ends it without a map. -/
def rebuildWorldState (backend : Backend) (s : Store) : Option WorldState × Store :=
  match backend.stops with
  | none => (some (s.storedWrites.foldl PersistentWrite.applyToCache ∅),
      { s with state := s.storedWrites.foldl PersistentWrite.applyToCache s.state })
  | some count => (none,
      { s with state := (s.storedWrites.take count).foldl PersistentWrite.applyToCache s.state })

end Store

def windowsOk (X : Externals) (difficulty : Nat) (previous : Block) : List Block → Bool
  | [] => true
  | b :: rest =>
    (b.chainsTo X previous).isOk && Ledger.blockConsensusAdmissible b difficulty &&
      windowsOk X difficulty b rest

/-- What a restart asks of the stored chain. The validator sets are read from the chain alone. -/
def restorable {B : Multisig} (X : Externals) (verifierKey : B.PrivateKey) (difficulty : Nat) :
    List Block → Bool
  | [] => false
  | genesis :: rest =>
    genesis.isValid X && genesis.previousHash == "0" && windowsOk X difficulty genesis rest &&
      (verifyChainCertificates X verifierKey (genesis :: rest) none).isOk

/-- `restore_ledger`: `fresh` is what `Ledger::new` gives. -/
def restoreLedger {B : Multisig} (X : Externals) (verifierKey : B.PrivateKey) (s : Store)
    (fresh : Ledger) : Ledger :=
  match s.storedChain with
  | none => fresh
  | some chain =>
    if restorable X verifierKey fresh.difficulty chain then { fresh with chain := chain } else fresh

/-- A restart keeps the fresh ledger or gives it a stored chain that passed the checks. -/
theorem restoreLedger_cases {B : Multisig} (X : Externals) (verifierKey : B.PrivateKey) (s : Store)
    (fresh : Ledger) :
    (restoreLedger X verifierKey s fresh = fresh ∧
      ∀ chain, s.storedChain = some chain →
        restorable X verifierKey fresh.difficulty chain = false) ∨
    ∃ chain, s.storedChain = some chain ∧ restorable X verifierKey fresh.difficulty chain = true ∧
      restoreLedger X verifierKey s fresh = { fresh with chain := chain } := by
  unfold restoreLedger
  split
  · rename_i missing
    exact .inl ⟨rfl, by simp [missing]⟩
  · rename_i chain stored
    split
    · rename_i ok
      exact .inr ⟨chain, stored, ok, rfl⟩
    · rename_i refused
      exact .inl ⟨rfl, by simpa [stored] using refused⟩

def Store.Holds (s : Store) (chain : List Block) : Prop := ∀ i, s.getBlock i = chain[i]?

namespace Store

variable {s t : Store} {chain : List Block} {b : Block}

lemma holds_empty : empty.Holds [] := fun _ => rfl

lemma Holds.consecutive (h : s.Holds chain) : Consecutive chain :=
  fun i b placed => s.keyed i b ((h i).trans placed)

lemma mem_keys {i : Nat} : i ∈ s.blocks.keys ↔ (s.getBlock i).isSome = true := by
  rw [← AList.mem_keys, getBlock, AList.lookup_isSome]

lemma Holds.latestBlockIndex (h : s.Holds chain) :
    s.latestBlockIndex = chain.getLast?.map Block.index := by
  have stored (i : Nat) : i ∈ s.blocks.keys ↔ i < chain.length := by
    rw [mem_keys, h i]
    simp
  cases chain using List.reverseRecOn with
  | nil =>
    have none : s.blocks.keys = [] :=
      eq_nil_iff_forall_not_mem.mpr fun i mem => by simpa using (stored i).mp mem
    simp [Store.latestBlockIndex, none]
  | append_singleton front last =>
    have index : last.index = front.length := h.consecutive.last
    rw [Store.latestBlockIndex, getLast?_concat, Option.map_some, index, max?_eq_some_iff]
    refine ⟨(stored _).mpr (by simp), fun i mem => ?_⟩
    have := (stored i).mp mem
    simp only [length_append, length_singleton] at this
    omega

lemma Holds.tip (h : s.Holds chain) : s.tip = .ok chain.getLast? := by
  unfold Store.tip
  rw [h.latestBlockIndex]
  cases chain using List.reverseRecOn with
  | nil => simp
  | append_singleton front last =>
    have found : s.getBlock last.index = some last := by
      rw [h, h.consecutive.last]
      simp
    simp [found]

lemma Holds.indices (h : s.Holds chain) : s.indices = List.range chain.length := by
  unfold Store.indices
  rw [h.latestBlockIndex]
  cases chain using List.reverseRecOn with
  | nil => simp
  | append_singleton front last => simp [h.consecutive.last]

lemma Holds.length_indices (h : s.Holds chain) : s.indices.length = chain.length := by
  rw [h.indices, length_range]

lemma mapM_range_getElem? {n : Nat} (inside : n ≤ chain.length) :
    (List.range n).mapM (fun i => chain[i]?) = some (chain.take n) := by
  induction n with
  | zero => rfl
  | succ n ih =>
    have next := getElem?_eq_getElem (show n < chain.length by omega)
    rw [range_succ, mapM_append, ih (by omega), take_add_one, next]
    simp [next]

lemma Holds.storedChain (h : s.Holds chain) : s.storedChain = some chain := by
  rw [Store.storedChain, h.indices, funext h, mapM_range_getElem? le_rfl, take_length]

lemma index_of_storedChain {genesis : Block} {rest : List Block}
    (stored : s.storedChain = some (genesis :: rest)) : genesis.index = 0 := by
  unfold Store.storedChain Store.indices at stored
  cases latest : s.latestBlockIndex with
  | none => simp [latest] at stored
  | some n =>
    simp only [latest, range_succ_eq_map, mapM_cons, Option.bind_eq_bind,
      Option.bind_eq_some_iff] at stored
    obtain ⟨first, found, _, -, same⟩ := stored
    obtain ⟨rfl, -⟩ : first = genesis ∧ _ := by simpa using same
    exact s.keyed 0 _ found

@[simp]
lemma putBlock_state : (s.putBlock b).state = s.state := rfl

@[simp]
lemma applyWrites_state : (s.applyWrites b).state =
    b.writeSet.foldl PersistentWrite.applyToCache s.state := rfl

lemma getBlock_putBlock (i : Nat) :
    (s.putBlock b).getBlock i = if i = b.index then some b else s.getBlock i := by
  by_cases new : i = b.index
  · subst new
    simp [getBlock, putBlock]
  · rw [if_neg new]
    exact AList.lookup_insert_ne new

lemma Holds.putBlock (h : s.Holds chain) (index : b.index = chain.length) :
    (s.putBlock b).Holds (chain ++ [b]) := by
  intro i
  rw [getBlock_putBlock, index, h i, getElem?_append]
  split
  · rename_i new
    simp [new]
  · split
    · rfl
    · rw [getElem?_eq_none (by omega), getElem?_eq_none (by simp; omega)]

/-- `b` comes after the blocks of `chain`. -/
def Next (chain : List Block) (b : Block) : Prop :=
  b.index = chain.length ∧ ∀ tip, chain.getLast? = some tip → b.previousHash = tip.hash

lemma Holds.validateTipChain_eq_ok (h : s.Holds chain) :
    validateTipChain b chain.getLast? = .ok () ↔ Next chain b := by
  cases chain using List.reverseRecOn with
  | nil => simp [validateTipChain, Next]
  | append_singleton front last => simp [validateTipChain, Next, h.consecutive.last]

lemma Holds.applyBlock_eq_ok (h : s.Holds chain) :
    s.applyBlock b = .ok t ↔ Next chain b ∧ t = (s.putBlock b).applyWrites b := by
  simp only [applyBlock, h.tip, bind_eq_ok, Except.ok.injEq, exists_eq_left', pure, Except.pure,
    Unique.exists_iff, h.validateTipChain_eq_ok, eq_comm (b := t)]

/-- The blocks and the state after every block of a chain was applied. -/
theorem holds_of_applied {s : Store} {front chain : List Block} (h : s.Holds front)
    (applied : chain.foldlM applyBlock s = .ok t) :
    t.Holds (front ++ chain) ∧ t.state =
      chain.foldl (fun world b => b.writeSet.foldl PersistentWrite.applyToCache world) s.state := by
  induction chain generalizing s front with
  | nil =>
    obtain rfl : s = t := by simpa [pure, Except.pure] using applied
    simpa using h
  | cons b rest ih =>
    obtain ⟨u, first, later⟩ := bind_eq_ok.mp applied
    obtain ⟨⟨index, -⟩, rfl⟩ := h.applyBlock_eq_ok.mp first
    have grown : ((s.putBlock b).applyWrites b).Holds (front ++ [b]) := h.putBlock index
    simpa using ih grown later

end Store

/-- A linked chain can be applied block by block. -/
theorem Linked.exists_stored {X : Externals} {chain : List Block} (linked : Linked X chain) :
    ∃ s, chain.foldlM Store.applyBlock Store.empty = .ok s := by
  induction linked with
  | genesis index _ =>
    have applied := Store.holds_empty.applyBlock_eq_ok.mpr ⟨⟨index, by simp⟩, rfl⟩
    exact ⟨_, by rw [foldlM_cons, applied]; rfl⟩
  | @snoc chain tip b linked last next ih =>
    obtain ⟨s, stored⟩ := ih
    have holds : s.Holds chain := by simpa using (Store.holds_of_applied Store.holds_empty stored).1
    obtain ⟨previous, index, -⟩ := Block.chainsTo_iff.mp next
    have follows : Store.Next chain b := by
      refine ⟨by rw [index, linked.length_eq last], fun other found => ?_⟩
      rw [previous, Option.some.inj (last.symm.trans found)]
    have applied := holds.applyBlock_eq_ok.mpr ⟨follows, rfl⟩
    refine ⟨(s.putBlock b).applyWrites b, ?_⟩
    rw [foldlM_append, bind_eq_ok]
    exact ⟨s, stored, by rw [foldlM_cons, applied]; rfl⟩

end GlassChain
