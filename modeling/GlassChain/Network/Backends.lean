import GlassChain.Core.Text
import GlassChain.Library.Calls
import GlassChain.Library.KeyedMap
import GlassChain.Network.Storage

/-!
# The storage backends

Three implementations of `apply_block`: the in-memory maps under one pair of locks, the `redb`
tables under one write transaction, and the default of the trait, one call after another. They agree
on every history in which each block that was taken can be read back from its JSON text. The `redb`
backend alone stores that text, and takes a block without reading it.
-/

namespace GlassChain

open Library Std.TreeMap Store PersistentWrite

inductive StorageCall where
  | applyBlock (block : Block)
  | putState (key : String) (value : Bytes)
  | deleteState (key : String)

/-- The methods of `StorageProvider` that its default `apply_block` calls. -/
structure StorageProvider (σ : Type) where
  putBlock : σ → Block → σ × Except CoreError Unit
  getBlock : σ → Nat → Except CoreError (Option Block)
  latestBlockIndex : σ → Except CoreError (Option Nat)
  putState : σ → String → Bytes → σ × Except CoreError Unit
  deleteState : σ → String → σ × Except CoreError Unit

namespace StorageProvider

variable {σ : Type}

def tip (P : StorageProvider σ) (s : σ) : Except CoreError (Option Block) := do
  match ← P.latestBlockIndex s with
  | none => return none
  | some index => match ← P.getBlock s index with
    | none => throw (.storage s!"block {index} missing from store")
    | some tip => return some tip

def applyWrite (P : StorageProvider σ) (s : σ) (write : PersistentWrite) :
    σ × Except CoreError Unit :=
  match write.op with
  | .set value => P.putState s write.stateKey value
  | .delete => P.deleteState s write.stateKey

/-- Block first, then one call for each write. -/
def applyBlock (P : StorageProvider σ) (s : σ) (block : Block) : σ × Except CoreError Unit :=
  match P.tip s >>= validateTipChain block with
  | .error e => (s, .error e)
  | .ok () => match P.putBlock s block with
    | (s, .error e) => (s, .error e)
    | (s, .ok ()) => runInPlace P.applyWrite s block.writeSet

def call (P : StorageProvider σ) (s : σ) : StorageCall → σ × Except CoreError Unit
  | .applyBlock block => P.applyBlock s block
  | .putState key value => P.putState s key value
  | .deleteState key => P.deleteState s key

end StorageProvider

namespace Store

def putState (s : Store) (key : String) (value : Bytes) : Store :=
  { s with state := s.state.insert key value }

def deleteState (s : Store) (key : String) : Store := { s with state := s.state.erase key }

def call (s : Store) : StorageCall → Store × Except CoreError Unit
  | .applyBlock block => match s.applyBlock block with
    | .ok t => (t, .ok ())
    | .error e => (s, .error e)
  | .putState key value => (s.putState key value, .ok ())
  | .deleteState key => (s.deleteState key, .ok ())

def Accepts (s : Store) (block : Block) : Prop :=
  ∃ tip, s.tip = .ok tip ∧ validateTipChain block tip = .ok ()

lemma applyBlock_cases (s : Store) (block : Block) :
    (s.Accepts block ∧ s.applyBlock block = .ok ((s.putBlock block).applyWrites block)) ∨
      ¬s.Accepts block ∧ ∃ e, s.applyBlock block = .error e := by
  unfold Accepts applyBlock
  cases s.tip with
  | error e => simp [bind, Except.bind]
  | ok tip =>
    cases chained : validateTipChain block tip <;>
      simp [chained, bind, Except.bind, pure, Except.pure]

end Store

/-- The other methods of the in-memory backend, which never fail. -/
def inMemory : StorageProvider Store where
  putBlock s block := (s.putBlock block, .ok ())
  getBlock s index := .ok (s.getBlock index)
  latestBlockIndex s := .ok s.latestBlockIndex
  putState s key value := (s.putState key value, .ok ())
  deleteState s key := (s.deleteState key, .ok ())

lemma inMemory_tip (s : Store) : inMemory.tip s = s.tip := by
  simp only [StorageProvider.tip, inMemory, Store.tip, bind, Except.bind]
  cases s.latestBlockIndex with
  | none => rfl
  | some index => cases s.getBlock index <;> rfl

lemma inMemory_applyWrite (s : Store) (w : PersistentWrite) :
    inMemory.applyWrite s w = ({ s with state := w.applyToCache s.state }, .ok ()) := by
  unfold StorageProvider.applyWrite applyToCache
  cases w.op <;> rfl

lemma inMemory_writes (s : Store) (writes : List PersistentWrite) :
    runInPlace inMemory.applyWrite s writes =
      ({ s with state := writes.foldl applyToCache s.state }, .ok ()) := by
  induction writes generalizing s with
  | nil => rfl
  | cons w writes ih => rw [runInPlace_cons_ok (inMemory_applyWrite s w), ih, List.foldl_cons]

lemma inMemory_call : inMemory.call = Store.call := by
  funext s c
  cases c with
  | putState key value => rfl
  | deleteState key => rfl
  | applyBlock block =>
    simp only [StorageProvider.call, StorageProvider.applyBlock, inMemory_tip, Store.call,
      Store.applyBlock, bind, Except.bind]
    cases s.tip with
    | error e => rfl
    | ok tip =>
      cases chained : validateTipChain block tip with
      | error e => simp [chained]
      | ok _ =>
        simp only [chained]
        exact inMemory_writes (s.putBlock block) block.writeSet

/-- `serde_json::to_vec` and `from_slice` for blocks. -/
structure BlockJson where
  toVec : Block → Bytes
  fromSlice : Bytes → Except CoreError Block

def BlockJson.Readable (J : BlockJson) (b : Block) : Prop := J.fromSlice (J.toVec b) = .ok b

/-- The two tables of the database, sorted by key. -/
structure Redb where
  blocks : Std.TreeMap Nat Bytes
  state : Std.TreeMap String Bytes

namespace Redb

def empty : Redb := ⟨∅, ∅⟩

def last (db : Redb) : Option (Nat × Bytes) :=
  db.blocks.maxKey?.bind fun key => (db.blocks[key]?).map fun value => (key, value)

variable (J : BlockJson)

def tipInTxn (db : Redb) : Except CoreError (Option Block) :=
  match db.last with
  | some (_, value) => (J.fromSlice value).map some
  | none => .ok none

def applyWrite (state : Std.TreeMap String Bytes) (write : PersistentWrite) :
    Std.TreeMap String Bytes :=
  match write.op with
  | .set value => state.insert write.stateKey value
  | .delete => state.erase write.stateKey

/-- The write transaction: an error leaves it uncommitted. -/
def applyBlock (db : Redb) (block : Block) : Except CoreError Redb := do
  let tip ← db.tipInTxn J
  (validateTipChain block tip).mapError fun e => .invalidBlock e.display
  let state := block.writeSet.foldl applyWrite db.state
  return ⟨db.blocks.insert block.index (J.toVec block), state⟩

def Accepts (db : Redb) (block : Block) : Prop :=
  ∃ tip, db.tipInTxn J = .ok tip ∧ validateTipChain block tip = .ok ()

lemma applyBlock_cases (db : Redb) (block : Block) :
    (db.Accepts J block ∧ db.applyBlock J block =
        .ok ⟨db.blocks.insert block.index (J.toVec block), block.writeSet.foldl applyWrite db.state⟩) ∨
      ¬db.Accepts J block ∧ ∃ e, db.applyBlock J block = .error e := by
  unfold Accepts applyBlock
  cases db.tipInTxn J with
  | error e => simp [bind, Except.bind]
  | ok tip =>
    cases chained : validateTipChain block tip <;>
      simp [chained, bind, Except.bind, pure, Except.pure, Except.mapError]

def getBlock (db : Redb) (index : Nat) : Except CoreError (Option Block) :=
  match db.blocks[index]? with
  | some value => (J.fromSlice value).map some
  | none => .ok none

def call (J : BlockJson) (db : Redb) : StorageCall → Redb × Except CoreError Unit
  | .applyBlock block => match db.applyBlock J block with
    | .ok db => (db, .ok ())
    | .error e => (db, .error e)
  | .putState key value => ({ db with state := db.state.insert key value }, .ok ())
  | .deleteState key => ({ db with state := db.state.erase key }, .ok ())

end Redb

/-- The tables hold the texts of the stored blocks, which can be read back, and the same state. -/
structure Redb.Mirrors (J : BlockJson) (db : Redb) (s : Store) : Prop where
  blocks : ∀ i, db.blocks[i]? = (s.getBlock i).map J.toVec
  readable : ∀ i b, s.getBlock i = some b → J.Readable b
  state : ∀ key, db.state[key]? = s.state.lookup key

namespace Redb

variable {J : BlockJson} {db : Redb} {s : Store} {b : Block}

lemma mirrors_empty : Mirrors J empty Store.empty where
  blocks i := by simp [empty, Store.empty, Store.getBlock]
  readable i b found := by simp [Store.empty, Store.getBlock] at found
  state key := by simp [empty, Store.empty]

lemma Mirrors.getBlock (m : Mirrors J db s) (i : Nat) : db.getBlock J i = .ok (s.getBlock i) := by
  rw [Redb.getBlock, m.blocks]
  cases found : s.getBlock i with
  | none => rfl
  | some b =>
    have readable : J.fromSlice (J.toVec b) = .ok b := m.readable i b found
    simp [readable, Except.map]

lemma Mirrors.maxKey (m : Mirrors J db s) : db.blocks.maxKey? = s.latestBlockIndex := by
  have stored (i : Nat) : i ∈ db.blocks ↔ i ∈ s.blocks.keys := by
    rw [mem_iff_isSome_getElem?, m.blocks, Option.isSome_map, mem_keys]
  refine Option.ext fun i => ?_
  rw [maxKey?_eq_some_iff_mem_and_forall, Store.latestBlockIndex, List.max?_eq_some_iff]
  simp only [stored, Nat.isLE_compare]

lemma Mirrors.tip (m : Mirrors J db s) : db.tipInTxn J = s.tip := by
  unfold tipInTxn last Store.tip
  rw [m.maxKey]
  cases latest : s.latestBlockIndex with
  | none => rfl
  | some i =>
    have stored : (s.getBlock i).isSome = true := mem_keys.mp (List.max?_eq_some_iff.mp latest).1
    obtain ⟨tip, found⟩ := Option.isSome_iff_exists.mp stored
    have readable : J.fromSlice (J.toVec tip) = .ok tip := m.readable i tip found
    simp [m.blocks, found, readable, Except.map]

variable {state : Std.TreeMap String Bytes} {world : WorldState}

section

variable (same : ∀ key, state[key]? = world.lookup key)

include same

lemma insert_mirrors (written : String) (value : Bytes) (key : String) :
    (state.insert written value)[key]? = (world.insert written value).lookup key := by
  rw [getElem?_insert]
  by_cases new : written = key
  · subst new
    simp
  · rw [if_neg (by simpa using new), AList.lookup_insert_ne (Ne.symm new), same]

lemma erase_mirrors (erased : String) (key : String) :
    (state.erase erased)[key]? = (world.erase erased).lookup key := by
  rw [getElem?_erase]
  by_cases gone : erased = key
  · subst gone
    simp
  · rw [if_neg (by simpa using gone), AList.lookup_erase_ne (Ne.symm gone), same]

lemma applyWrite_mirrors (w : PersistentWrite) (key : String) :
    (applyWrite state w)[key]? = (w.applyToCache world).lookup key := by
  unfold applyWrite applyToCache
  cases w.op with
  | set value => exact insert_mirrors same w.stateKey value key
  | delete => exact erase_mirrors same w.stateKey key

lemma writes_mirror (writes : List PersistentWrite) (key : String) :
    (writes.foldl applyWrite state)[key]? =
      (writes.foldl applyToCache world).lookup key := by
  induction writes generalizing state world with
  | nil => exact same key
  | cons w writes ih => exact ih (applyWrite_mirrors same w)

end

lemma Mirrors.applied (m : Mirrors J db s) (readable : J.Readable b) :
    Mirrors J ⟨db.blocks.insert b.index (J.toVec b), b.writeSet.foldl applyWrite db.state⟩
      ((s.putBlock b).applyWrites b) where
  blocks i := by
    have block : ((s.putBlock b).applyWrites b).getBlock i = (s.putBlock b).getBlock i := rfl
    rw [getElem?_insert, m.blocks, block, getBlock_putBlock]
    by_cases new : b.index = i
    · simp [new]
    · rw [if_neg (by simpa using new), if_neg (Ne.symm new)]
  readable i c found := by
    rw [show ((s.putBlock b).applyWrites b).getBlock i = (s.putBlock b).getBlock i from rfl,
      getBlock_putBlock] at found
    split at found
    · exact Option.some.inj found ▸ readable
    · exact m.readable i c found
  state := writes_mirror m.state b.writeSet

lemma Mirrors.accepts (m : Mirrors J db s) : db.Accepts J b ↔ s.Accepts b := by
  unfold Accepts Store.Accepts
  rw [m.tip]

def Fits (J : BlockJson) (s : Store) (c : StorageCall) : Prop :=
  ∀ b, c = .applyBlock b → s.Accepts b → J.Readable b

lemma Mirrors.call (m : Mirrors J db s) (c : StorageCall) (fits : Fits J s c) :
    (db.call J c).2.isOk = (s.call c).2.isOk ∧ Mirrors J (db.call J c).1 (s.call c).1 := by
  cases c with
  | putState key value => exact ⟨rfl, m.blocks, m.readable, insert_mirrors m.state key value⟩
  | deleteState key => exact ⟨rfl, m.blocks, m.readable, erase_mirrors m.state key⟩
  | applyBlock b =>
    obtain ⟨accepted, stored⟩ | ⟨refused, e, failed⟩ := s.applyBlock_cases b
    · obtain ⟨-, stored'⟩ | ⟨refused', -⟩ := db.applyBlock_cases J b
      · simp only [Redb.call, Store.call, stored, stored']
        exact ⟨trivial, m.applied (fits b rfl accepted)⟩
      · exact absurd (m.accepts.mpr accepted) refused'
    · obtain ⟨accepted', -⟩ | ⟨-, e', failed'⟩ := db.applyBlock_cases J b
      · exact absurd (m.accepts.mp accepted') refused
      · simp only [Redb.call, Store.call, failed, failed']
        exact ⟨rfl, m⟩

end Redb

def HashLinked (chain : List Block) : Prop :=
  ∀ i b next, chain[i]? = some b → chain[i + 1]? = some next → next.previousHash = b.hash

lemma HashLinked.append {chain : List Block} (linked : HashLinked chain) {b : Block}
    (follows : Store.Next chain b) : HashLinked (chain ++ [b]) := by
  intro i c next here there
  have inside : i + 1 < (chain ++ [b]).length := (List.getElem?_eq_some_iff.mp there).1
  rw [List.length_append, List.length_singleton] at inside
  rw [List.getElem?_append_left (by omega)] at here
  by_cases old : i + 1 < chain.length
  · rw [List.getElem?_append_left old] at there
    exact linked i c next here there
  · have last : i + 1 = chain.length := by omega
    rw [last, List.getElem?_concat_length, Option.some.injEq] at there
    subst there
    refine follows.2 c ?_
    rw [List.getLast?_eq_getElem?, ← last]
    exact here

def Store.Gapless (s : Store) : Prop := ∃ chain, s.Holds chain ∧ HashLinked chain

lemma Store.Gapless.call {s : Store} (gapless : s.Gapless) (c : StorageCall) :
    (s.call c).1.Gapless := by
  obtain ⟨chain, holds, linked⟩ := gapless
  cases c with
  | putState | deleteState => exact ⟨chain, holds, linked⟩
  | applyBlock b =>
    obtain ⟨-, stored⟩ | ⟨-, e, failed⟩ := s.applyBlock_cases b
    · obtain ⟨follows, -⟩ := holds.applyBlock_eq_ok.mp stored
      simp only [Store.call, stored]
      exact ⟨chain ++ [b], holds.putBlock follows.1, linked.append follows⟩
    · simp only [Store.call, failed]
      exact ⟨chain, holds, linked⟩

/-- What the three backends show of themselves after a list of calls on an empty store: which calls
returned `Ok`, the blocks, and the state. -/
structure BackendsAgree (J : BlockJson) (calls : List StorageCall) : Prop where
  returned : (returned (Redb.call J) .empty calls).map Except.isOk =
    (returned Store.call .empty calls).map Except.isOk
  sequential : (Library.returned inMemory.call .empty calls).map Except.isOk =
    (Library.returned Store.call .empty calls).map Except.isOk
  blocks : ∀ i, (after (Redb.call J) .empty calls).getBlock J i =
    .ok ((after Store.call .empty calls).getBlock i)
  state : ∀ key, (after (Redb.call J) .empty calls).state[key]? =
    (after Store.call .empty calls).state.lookup key
  maps : after inMemory.call .empty calls = after Store.call .empty calls

variable {J : BlockJson}

lemma agree_of_along {calls : List StorageCall}
    (fits : Along Store.call (Redb.Fits J) .empty calls) : BackendsAgree J calls := by
  obtain ⟨answers, mirrors⟩ := simulation (R := Redb.Mirrors J)
    (fun _ _ c m fits => m.call c fits) Redb.mirrors_empty fits
  exact ⟨answers, by rw [inMemory_call], mirrors.getBlock, mirrors.state, by rw [inMemory_call]⟩

/-- A block that the table took is its last entry, under its own index. -/
theorem Redb.getBlock_of_accepted {db : Redb} {b : Block}
    (accepted : (db.call J (.applyBlock b)).2.isOk = true) :
    (db.call J (.applyBlock b)).1.getBlock J b.index = (J.fromSlice (J.toVec b)).map some := by
  obtain ⟨-, stored⟩ | ⟨-, e, failed⟩ := db.applyBlock_cases J b
  · simp [Redb.call, stored, Redb.getBlock]
  · simp [Redb.call, failed, Except.isOk, Except.toBool] at accepted

lemma readable_of_agree {front : List StorageCall} {b : Block}
    (agree : BackendsAgree J (front ++ [.applyBlock b]))
    (accepted : (after Store.call .empty front).Accepts b) : J.Readable b := by
  have answers := agree.returned
  have blocks := agree.blocks b.index
  rw [returned_concat, returned_concat, List.map_append, List.map_append] at answers
  have last := List.append_inj_right' answers rfl
  rw [List.map_singleton, List.map_singleton, List.singleton_inj] at last
  rw [after_concat, after_concat] at blocks
  generalize after Store.call .empty front = s at *
  generalize after (Redb.call J) .empty front = db at *
  obtain ⟨-, stored⟩ | ⟨refused, -⟩ := s.applyBlock_cases b
  · have ok : (s.call (.applyBlock b)).2.isOk = true := by
      simp [Store.call, stored, Except.isOk, Except.toBool]
    have found : (s.call (.applyBlock b)).1.getBlock b.index = some b := by
      simp only [Store.call, stored]
      exact (getBlock_putBlock _).trans (if_pos rfl)
    rw [Redb.getBlock_of_accepted (last.trans ok), found] at blocks
    unfold BlockJson.Readable
    cases read : J.fromSlice (J.toVec b) with
    | error e => simp [read, Except.map] at blocks
    | ok c => simpa [read, Except.map] using blocks
  · exact absurd accepted refused

/-- The backends agree after every part of a history exactly when each block it stores can be read
back from its text. In any case the in-memory blocks are a gapless linked chain, and a rejected
`apply_block` changes nothing. -/
theorem backends_agree_iff (J : BlockJson) (calls : List StorageCall) :
    ((∀ front, front <+: calls → BackendsAgree J front) ↔
      ∀ front b, front ++ [.applyBlock b] <+: calls →
        (after Store.call .empty front).Accepts b → J.Readable b) ∧
    (after Store.call .empty calls).Gapless ∧
    ∀ b, (∀ s : Store, (s.call (.applyBlock b)).2.isOk = false → (s.call (.applyBlock b)).1 = s) ∧
      (∀ s, (inMemory.call s (.applyBlock b)).2.isOk = false →
        (inMemory.call s (.applyBlock b)).1 = s) ∧
      ∀ db : Redb, (db.call J (.applyBlock b)).2.isOk = false →
        (db.call J (.applyBlock b)).1 = db := by
  have rejected (s : Store) (b : Block) (failed : (s.call (.applyBlock b)).2.isOk = false) :
      (s.call (.applyBlock b)).1 = s := by
    obtain ⟨-, stored⟩ | ⟨-, e, refused⟩ := s.applyBlock_cases b
    · simp [Store.call, stored, Except.isOk, Except.toBool] at failed
    · simp [Store.call, refused]
  refine ⟨⟨fun agree front b sub accepted => ?_, fun readable front sub => ?_⟩, ?_,
    fun b => ⟨fun s => rejected s b, ?_, fun db failed => ?_⟩⟩
  · exact readable_of_agree (agree _ sub) accepted
  · refine agree_of_along (Along.of_prefix ?_ sub)
    rintro front c within b rfl accepted
    exact readable front b within accepted
  · exact after_invariant (fun _ c gapless => gapless.call c)
      ⟨[], holds_empty, by simp [HashLinked]⟩ calls
  · rw [inMemory_call]
    exact fun s => rejected s b
  · obtain ⟨-, stored⟩ | ⟨-, e, refused⟩ := db.applyBlock_cases J b
    · simp [Redb.call, stored, Except.isOk, Except.toBool] at failed
    · simp [Redb.call, refused]

/-- `serde_json` reads no text nested 128 deep. A block is such a text if a payload field is. -/
def TooDeep (b : Block) : Prop :=
  ∃ tx ∈ b.transactions, ∃ record, tx.kind = .canonicalRecord record ∧
    ∃ field ∈ record.payload, 128 ≤ field.2.depth

deriving instance Countable for QuorumCertificate, Block

/-- An injective text for blocks, which are countably many. -/
noncomputable def blockText (b : Block) : Bytes :=
  utf8 (Externals.unary ((Countable.exists_injective_nat Block).choose b))

lemma blockText_injective : Function.Injective blockText :=
  utf8_injective.comp (Externals.unary_injective.comp
    (Countable.exists_injective_nat Block).choose_spec)

open Classical in
/-- A reader that fails on what is nested too deep and on nothing else. -/
noncomputable def limitedJson : BlockJson where
  toVec := blockText
  fromSlice text := match Function.partialInv blockText text with
    | some b => if TooDeep b then .error (.serialization "recursion limit exceeded") else .ok b
    | none => .error (.serialization "expected value")

noncomputable def deepBlock : Block :=
  Block.withWriteSet (.plain 0) 0 0 [⟨"deep", 0, .canonicalRecord ⟨"r", "lot", 1, none, 0, "org",
    [], none, [], [("note", nested 128)]⟩, []⟩] "0" []

noncomputable def blockAfterDeep : Block := Block.withWriteSet (.plain 0) 0 1 [] deepBlock.hash []

lemma deepBlock_tooDeep : TooDeep deepBlock :=
  ⟨_, List.mem_cons_self, _, rfl, _, List.mem_cons_self, (depth_nested 128).ge⟩

noncomputable def deepTable : Redb := ⟨(∅ : Std.TreeMap Nat Bytes).insert 0 (blockText deepBlock), ∅⟩

/-- which has no tip to chain to. -/
theorem deepTable_tip : ∃ e, deepTable.tipInTxn limitedJson = .error e := by
  have last : deepTable.last = some (0, blockText deepBlock) := by
    simp [deepTable, Redb.last, maxKey?_insert]
  have unreadable : limitedJson.fromSlice (blockText deepBlock) =
      .error (.serialization "recursion limit exceeded") := by
    simp [limitedJson, Function.partialInv_left blockText_injective, deepBlock_tooDeep]
  refine ⟨.serialization "recursion limit exceeded", ?_⟩
  simp [Redb.tipInTxn, last, unreadable, Except.map]

/-- The in-memory backend takes both blocks. The `redb` backend takes the first, cannot read it back
as the tip, and refuses the second. -/
theorem redb_stops_at_deep_block :
    let calls := [StorageCall.applyBlock deepBlock, .applyBlock blockAfterDeep]
    (returned Store.call .empty calls).map Except.isOk = [true, true] ∧
    (returned (Redb.call limitedJson) .empty calls).map Except.isOk = [true, false] ∧
    (after Store.call .empty calls).getBlock 1 = some blockAfterDeep ∧
    (after (Redb.call limitedJson) .empty calls).getBlock limitedJson 1 = .ok none := by
  have first : Store.empty.call (.applyBlock deepBlock) =
      ((Store.empty.putBlock deepBlock).applyWrites deepBlock, .ok ()) := rfl
  have holds : ((Store.empty.putBlock deepBlock).applyWrites deepBlock).Holds [deepBlock] :=
    holds_empty.putBlock rfl
  have next : Store.Next [deepBlock] blockAfterDeep :=
    ⟨rfl, by simp [blockAfterDeep, Block.withWriteSet]⟩
  have taken := holds.applyBlock_eq_ok.mpr ⟨next, rfl⟩
  have second (s : Store) (t : Store) (ok : s.applyBlock blockAfterDeep = .ok t) :
      s.call (.applyBlock blockAfterDeep) = (t, .ok ()) := by
    simp [Store.call, ok]
  have stored : Redb.empty.call limitedJson (.applyBlock deepBlock) = (deepTable, .ok ()) := by
    have noTip : Redb.empty.tipInTxn limitedJson = .ok none := by
      simp [Redb.tipInTxn, Redb.last, Redb.empty]
    have chained : validateTipChain deepBlock none = .ok () := rfl
    simp only [Redb.call, Redb.applyBlock, noTip, chained, bind, Except.bind, Except.mapError]
    rfl
  obtain ⟨e, unreadable⟩ := deepTable_tip
  have refused : deepTable.call limitedJson (.applyBlock blockAfterDeep) =
      (deepTable, .error e) := by
    simp [Redb.call, Redb.applyBlock, unreadable, bind, Except.bind]
  refine ⟨?_, ?_, ?_, ?_⟩
  · simp only [returned, first, second _ _ taken]
    rfl
  · simp only [returned, stored, refused]
    rfl
  · simp only [after, List.foldl_cons, List.foldl_nil, first, second _ _ taken]
    exact (getBlock_putBlock 1).trans (if_pos rfl)
  · simp only [after, List.foldl_cons, List.foldl_nil, stored, refused]
    simp [Redb.getBlock, deepTable]

end GlassChain
