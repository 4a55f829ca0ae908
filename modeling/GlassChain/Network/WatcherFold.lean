import GlassChain.Library.KeyedMap
import GlassChain.Network.AfterCommit
import GlassChain.Network.Automation

/-!
# The watcher's inventory of a ledger

A commit adds the stock movements of its block to the watcher's levels and then stores a snapshot of
them. A rebuild, at the start and after a chain was adopted, takes the stored snapshot whatever
chain it was taken on, and replays the chain into a new watcher without triggers when there is none.
Levels are 64-bit. They are the exact sums over the ledger's chain, in the quiescent states and for
sums in range, when admitted blocks come in time, chains are replaced while nothing is outstanding,
and every snapshot that is restored has the levels of the chain; triggers stay when no replay and no
restart happens after they were registered.
-/

namespace GlassChain

open Library Materialised List WatcherService Multisig
open scoped List

variable {B : Multisig} {X : Externals}

def stockMoved (updates : List InventoryUpdate) (product owner : String) : Int :=
  ((updates.filter fun u => u.productId = product ∧ u.ownerId = owner).map
    InventoryUpdate.quantityDelta).sum

def stockLevel (chain : List Block) (product owner : String) : Int :=
  stockMoved (inventoryUpdates (chain.flatMap Block.transactions)) product owner

lemma stockLevel_append (front back : List Block) (product owner : String) :
    stockLevel (front ++ back) product owner =
      stockLevel front product owner + stockLevel back product owner := by
  simp [stockLevel, stockMoved, inventoryUpdates, filterMap_append]

lemma stockLevel_perm {front back : List Block} (same : front ~ back) (product owner : String) :
    stockLevel front product owner = stockLevel back product owner := by
  have transactions := same.flatMap_right Block.transactions
  exact (((transactions.filterMap _).filter _).map _).sum_eq

/-- A level is kept as a signed 64-bit integer. -/
def wrap (level : Int) : Int := level.bmod (2 ^ 64)

lemma wrap_wrap_add (level moved : Int) : wrap (wrap level + moved) = wrap (level + moved) :=
  Int.bmod_add_bmod

lemma wrap_eq_self {level : Int} : wrap level = level ↔ -2 ^ 63 ≤ level ∧ level < 2 ^ 63 := by
  rw [wrap, Int.bmod_def]
  omega

namespace WatcherService

variable {clock : String → Nat} {W : WatcherService}

lemma fireAll_frame (update : InventoryUpdate) (level : Int) (triggers : List InventoryTrigger) :
    (W.fireAll X clock update level triggers).1.inventory = W.inventory ∧
      (W.fireAll X clock update level triggers).1.triggers = W.triggers := by
  induction triggers generalizing W with
  | nil => exact ⟨rfl, rfl⟩
  | cons trigger rest ih =>
    have first : (W.fire X clock update level trigger).1.inventory = W.inventory := by
      simp only [fire]
      split <;> rfl
    obtain ⟨inventory, triggers⟩ := ih (W := (W.fire X clock update level trigger).1)
    exact ⟨inventory.trans first, triggers.trans (fire_frame X clock W update level trigger).2⟩

lemma onInventoryUpdate_triggers (update : InventoryUpdate) :
    (W.onInventoryUpdate X clock update).1.triggers = W.triggers :=
  (fireAll_frame update _ _).2

lemma onInventoryUpdate_inventory (update : InventoryUpdate) (product owner : String) :
    (W.onInventoryUpdate X clock update).1.inventory product owner =
      if update.productId = product ∧ update.ownerId = owner then
        wrap (W.inventory product owner + update.quantityDelta)
      else W.inventory product owner := by
  rw [onInventoryUpdate, (fireAll_frame update _ _).1]
  simp only [Function.update_apply, wrap]
  grind

lemma watch_triggers (updates : List InventoryUpdate) :
    (W.watch X clock updates).1.triggers = W.triggers := by
  induction updates generalizing W with
  | nil => rfl
  | cons update rest ih => exact ih.trans (onInventoryUpdate_triggers update)

lemma watch_inventory {updates : List InventoryUpdate} {product owner : String} {level : Int}
    (before : W.inventory product owner = wrap level) :
    (W.watch X clock updates).1.inventory product owner =
      wrap (level + stockMoved updates product owner) := by
  induction updates generalizing W level with
  | nil => simpa [watch, stockMoved] using before
  | cons update rest ih =>
    have first : (W.onInventoryUpdate X clock update).1.inventory product owner = _ :=
      onInventoryUpdate_inventory update product owner
    by_cases here : update.productId = product ∧ update.ownerId = owner
    · rw [if_pos here, before, wrap_wrap_add] at first
      rw [watch, ih first]
      simp [stockMoved, here, add_assoc]
    · rw [if_neg here, before] at first
      rw [watch, ih first]
      simp [stockMoved, here]

end WatcherService

structure WatchNode where
  node : Materialised
  watcher : WatcherService
  /-- What is stored under `watcher:state`. -/
  snapshot : Option WatcherSnapshot
  /-- The blocks whose updates are to be watched next. -/
  due : List Block
  /-- How many commits are to store a snapshot next. -/
  saving : Nat
  /-- The rebuilds under way, each with the chain it has read. -/
  restoring : List (List Block)
  /-- The triggers that were registered, each as it was last. -/
  registered : AList fun _ : String => InventoryTrigger

inductive WatchEvent (B : Multisig) where
  | node (event : ProjectionEvent B)
  /-- One of the commits under way comes to the watcher. -/
  | watch (clock : String → Nat) (position : Nat)
  /-- A commit stores the snapshot, or storage refuses it. -/
  | save (stored : Bool)
  /-- A rebuild comes to the watcher and finds a snapshot, or none it can read. -/
  | restore (clock : String → Nat) (position : Nat) (readable : Bool)
  | addTrigger (trigger : InventoryTrigger)
  | setExecutor (executor : ExecutionProvider)

namespace Work

def adopts : Work → Bool
  | .adopted | .rebuild => true
  | .post _ | .mirror _ | .install _ => false

end Work

def Materialised.reads (s : Materialised) : ProjectionEvent B → List (List Block)
  | .work position _ => match s.work[position]? with
    | some .rebuild => [s.ledger.chain]
    | _ => []
  | _ => []

namespace WatchNode

def boot (node : Materialised) (snapshot : Option WatcherSnapshot)
    (registered : AList fun _ : String => InventoryTrigger) : WatchNode :=
  ⟨node, .new, snapshot, [], 0, [node.ledger.chain], registered⟩

def next (X : Externals) (s : WatchNode) : WatchEvent B → WatchNode
  | .node event =>
    if event.restarts then boot (s.node.next X event) s.snapshot s.registered
    else { s with
      node := s.node.next X event
      due := s.due ++ s.node.finished event
      restoring := s.restoring ++ s.node.reads event }
  | .watch clock position => match s.due[position]? with
    | none => s
    | some block => { s with
        watcher := (s.watcher.watch X clock (inventoryUpdates block.transactions)).1
        due := s.due.eraseIdx position
        saving := s.saving + 1 }
  | .save stored => match s.saving with
    | 0 => s
    | saving + 1 => { s with
        snapshot := if stored then some ⟨s.watcher.inventory, s.watcher.triggerFireCounts⟩
          else s.snapshot
        saving := saving }
  | .restore clock position readable => match s.restoring[position]? with
    | none => s
    | some chain => { s with
        watcher := s.watcher.rebuild X clock chain (if readable then s.snapshot else none)
        restoring := s.restoring.eraseIdx position }
  | .addTrigger trigger => { s with
      watcher := s.watcher.addTrigger trigger
      registered := s.registered.insert trigger.triggerId trigger }
  | .setExecutor executor => { s with watcher := s.watcher.setExecutor executor }

def Step (X : Externals) (s : WatchNode) (event : WatchEvent B) (t : WatchNode) : Prop :=
  t = s.next X event

def Quiescent (s : WatchNode) : Prop :=
  s.node.work = [] ∧ s.due = [] ∧ s.saving = 0 ∧ s.restoring = []

def Current (s : WatchNode) : Prop := s.node.work.countP Work.adopts = 0 ∧ s.restoring = []

/-- What keeps the levels and the ledger together: blocks are added when no rebuild is to come, and
a chain is replaced when nothing is outstanding; a snapshot that is restored has the levels of the
chain; no trigger is registered when the watcher is replaced. -/
def Steady (X : Externals) (s : WatchNode) : WatchEvent B → Prop
  | .node event =>
    s.node.Grows X event ∧
      ((s.node.next X event).ledger.chain ≠ s.node.ledger.chain → s.Current) ∨
    (∃ view blocks, event = .chain view blocks) ∧ s.node.work = [] ∧ s.due = [] ∧ s.restoring = [] ∨
    event.restarts = true ∧ s.registered = ∅
  | .restore _ position readable => (s.restoring[position]?).isSome = true →
    match if readable then s.snapshot else none with
    | some snapshot => ∀ product owner,
        snapshot.inventory product owner = wrap (stockLevel s.node.ledger.chain product owner)
    | none => s.registered = ∅
  | _ => True

def TriggersKept (s : WatchNode) : Prop :=
  ∀ id trigger, s.registered.lookup id = some trigger → s.watcher.triggers.lookup id = some trigger

inductive Tracks (s : WatchNode) : Prop
  /-- The levels are those of the chain without the blocks that are outstanding, -/
  | current (watched : List Block) (idle : s.Current)
      (account : watched ++ (Work.outstanding s.node.work ++ s.due) ~ s.node.ledger.chain)
      (levels : ∀ product owner,
        s.watcher.inventory product owner = wrap (stockLevel watched product owner))
  /-- or nothing is outstanding but one rebuild from the chain. -/
  | rebuilding (stored : Work.outstanding s.node.work = []) (watched : s.due = [])
      (one : s.node.work.countP Work.adopts + s.restoring.length = 1)
      (read : ∀ chain ∈ s.restoring, chain = s.node.ledger.chain)

variable {s : WatchNode}

lemma next_node {event : ProjectionEvent B} (stays : event.restarts = false) :
    s.next X (.node event) = { s with
      node := s.node.next X event
      due := s.due ++ s.node.finished event
      restoring := s.restoring ++ s.node.reads event } := by
  simp [next, stays]

lemma next_restart {event : ProjectionEvent B} (restarts : event.restarts = true) :
    s.next X (.node event) = boot (s.node.next X event) s.snapshot s.registered := by
  simp [next, restarts]

end WatchNode

/-- A rebuild that is to come stays so until it reads the chain. -/
theorem Materialised.adopts_next {s : Materialised} {event : ProjectionEvent B}
    (grows : s.Grows X event) :
    (s.next X event).work.countP Work.adopts + (s.reads event).length =
      s.work.countP Work.adopts := by
  cases event with
  | submit tx => rfl
  | prepare => rfl
  | mine view => simp [next, reads, countP_map, Function.comp_def, Work.adopts]
  | block view block =>
    simp only [next, reads]
    split <;> simp [Work.adopts]
  | chain view blocks =>
    have refused : replacesChain X s.ledger view blocks = false := grows
    simp [next, reads, refused]
  | restart verifierKey fresh backend => exact grows.elim
  | work position backend =>
    simp only [next]
    rcases found : s.work[position]? with _ | w
    · simp [perform, reads, found]
    obtain ⟨front, back, split, erased, replaced⟩ := exists_split found
    have before : s.work.countP Work.adopts =
        front.countP Work.adopts + (back.countP Work.adopts + if w.adopts then 1 else 0) := by
      rw [split, countP_append, countP_cons]
    rw [before]
    cases w with
    | post block =>
      simp only [perform, reads, found, erased, replaced, Work.adopts, Bool.false_eq_true, if_false]
      repeat' split
      all_goals simp [Work.adopts]
    | mirror block => simp [perform, reads, found, erased, Work.adopts]
    | adopted => simp [perform, reads, found, replaced, countP_cons, Work.adopts]
    | rebuild =>
      simp only [perform, reads, found, erased, replaced]
      split <;> simp [Work.adopts, Nat.add_assoc]
    | install world => simp [perform, reads, found, erased, Work.adopts]

lemma Materialised.mem_reads {s : Materialised} {event : ProjectionEvent B} {chain : List Block}
    (read : chain ∈ s.reads event) : chain = s.ledger.chain := by
  unfold reads at read
  repeat' split at read
  all_goals simp_all

namespace WatchNode

variable {s : WatchNode}

/-- Steps of the node that let the chain grow. -/
theorem Tracks.grow (tracks : s.Tracks) {event : ProjectionEvent B} (grows : s.node.Grows X event)
    (current : (s.node.next X event).ledger.chain ≠ s.node.ledger.chain → s.Current) :
    (s.next X (.node event)).Tracks := by
  rw [next_node grows.not_restarts]
  obtain ⟨new, chain, account⟩ := next_grows grows
  have adoptions := adopts_next grows
  cases tracks with
  | current watched idle accounted levels =>
    obtain ⟨none, quiet⟩ := idle
    have unread : s.node.reads event = [] := length_eq_zero_iff.mp (by omega)
    refine .current watched ⟨by dsimp only; omega, by simp [quiet, unread]⟩ ?_ levels
    dsimp only
    rw [chain]
    calc watched ++ (Work.outstanding (s.node.next X event).work ++
          (s.due ++ s.node.finished event))
      _ ~ watched ++ (Work.outstanding (s.node.next X event).work ++
          (s.node.finished event ++ s.due)) :=
        (perm_append_comm.append_left _).append_left _
      _ ~ watched ++ (Work.outstanding s.node.work ++ new ++ s.due) := by
        simpa using (account.append_right s.due).append_left watched
      _ ~ watched ++ (Work.outstanding s.node.work ++ s.due) ++ new := by
        simpa using (perm_append_comm.append_left
          (Work.outstanding s.node.work)).append_left watched
      _ ~ s.node.ledger.chain ++ new := accounted.append_right new
  | rebuilding stored watched one read =>
    have same : (s.node.next X event).ledger.chain = s.node.ledger.chain := by
      by_contra changed
      obtain ⟨none, quiet⟩ := current changed
      simp [none, quiet] at one
    obtain rfl : new = [] := by simpa [same] using chain
    rw [stored] at account
    obtain ⟨stored', finished⟩ := append_eq_nil_iff.mp (perm_nil.mp account)
    refine .rebuilding stored' (by simp [watched, finished]) ?_ fun c member => ?_
    · simp only [length_append]
      omega
    · dsimp only
      rw [same]
      rcases mem_append.mp member with old | new
      · exact read c old
      · exact mem_reads new

lemma Tracks.adopt (tracks : s.Tracks) {view : ChainView B} {blocks : List Block}
    (idle : s.node.work = []) (watched : s.due = []) (quiet : s.restoring = []) :
    (s.next X (.node (.chain view blocks))).Tracks := by
  by_cases replaces : replacesChain X s.node.ledger view blocks = true
  · rw [next_node rfl]
    have work : (s.node.next X (.chain view blocks)).work = [.adopted] := by
      simp [Materialised.next, replaces, idle]
    refine .rebuilding ?_ ?_ ?_ ?_ <;>
      simp [work, watched, quiet, Work.blocks, Work.adopts, finished, Materialised.reads]
  · have grows : s.node.Grows X (.chain view blocks) := by
      simpa [Materialised.Grows] using replaces
    refine tracks.grow grows fun changed => ?_
    simp [Materialised.next, receiveChain_eq, replaces] at changed

lemma Tracks.boot {node : Materialised} (idle : node.work = []) (snapshot : Option WatcherSnapshot)
    (registered : AList fun _ : String => InventoryTrigger) :
    (boot node snapshot registered).Tracks := by
  refine .rebuilding ?_ rfl ?_ ?_ <;> simp [WatchNode.boot, idle]

lemma Tracks.watch (tracks : s.Tracks) {clock : String → Nat} {position : Nat} {block : Block}
    (found : s.due[position]? = some block) :
    Tracks { s with
      watcher := (s.watcher.watch X clock (inventoryUpdates block.transactions)).1
      due := s.due.eraseIdx position
      saving := s.saving + 1 } := by
  obtain ⟨front, back, split, erased, -⟩ := exists_split found
  cases tracks with
  | current watched idle account levels =>
    refine .current (watched ++ [block]) idle ?_ fun product owner => ?_
    · refine List.Perm.trans ?_ account
      have moved : block :: (Work.outstanding s.node.work ++ (front ++ back)) ~
          Work.outstanding s.node.work ++ (front ++ block :: back) := by
        simp only [← append_assoc]
        exact perm_middle.symm
      simp only [erased]
      rw [split]
      simpa using moved.append_left watched
    · have moved : stockMoved (inventoryUpdates block.transactions) product owner =
          stockLevel [block] product owner := by simp [stockLevel]
      rw [stockLevel_append, ← moved]
      exact watch_inventory (levels product owner)
  | rebuilding stored watched => simp [watched] at found

/-- The rebuild that is under way comes to the watcher. -/
theorem Tracks.restore (tracks : s.Tracks) {clock : String → Nat} {position : Nat}
    {chain : List Block} {snapshot : Option WatcherSnapshot}
    (found : s.restoring[position]? = some chain)
    (fits : ∀ stored, snapshot = some stored → ∀ product owner,
      stored.inventory product owner = wrap (stockLevel s.node.ledger.chain product owner)) :
    Tracks { s with
      watcher := s.watcher.rebuild X clock chain snapshot
      restoring := s.restoring.eraseIdx position } := by
  obtain ⟨front, back, split, erased, -⟩ := exists_split found
  cases tracks with
  | current watched idle => simp [idle.2] at found
  | rebuilding stored watched one read =>
    obtain rfl : chain = s.node.ledger.chain := read chain (mem_of_getElem? found)
    simp only [split, length_append, length_cons] at one
    have emptied : s.restoring.eraseIdx position = [] := by
      rw [erased]
      exact length_eq_zero_iff.mp (by rw [length_append]; omega)
    refine .current s.node.ledger.chain ⟨by dsimp only; omega, emptied⟩ ?_ fun product owner => ?_
    · simp [stored, watched]
    · cases snapshot with
      | some stored => exact fits stored rfl product owner
      | none =>
        have new : WatcherService.new.inventory product owner = wrap 0 := rfl
        simpa [WatcherService.rebuild, stockLevel] using watch_inventory (X := X) new

lemma Tracks.next (tracks : s.Tracks) {event : WatchEvent B} (steady : s.Steady X event) :
    (s.next X event).Tracks := by
  cases event with
  | node event =>
    obtain ⟨grows, current⟩ | ⟨⟨view, blocks, rfl⟩, idle, watched, quiet⟩ | ⟨restarts, -⟩ := steady
    · exact tracks.grow grows current
    · exact tracks.adopt idle watched quiet
    · rw [next_restart restarts]
      exact .boot (next_restarts restarts) _ _
  | watch clock position =>
    simp only [WatchNode.next]
    split
    · exact tracks
    · exact tracks.watch ‹_›
  | restore clock position readable =>
    simp only [WatchNode.next]
    split
    · exact tracks
    · rename_i chain found
      refine tracks.restore found fun stored present => ?_
      have fits := steady (by simp [found])
      rwa [present] at fits
  | save stored =>
    simp only [WatchNode.next]
    split
    · exact tracks
    · cases tracks with
      | current watched idle account levels => exact .current watched idle account levels
      | rebuilding stored watched one read => exact .rebuilding stored watched one read
  | addTrigger trigger | setExecutor executor =>
    cases tracks with
    | current watched idle account levels => exact .current watched idle account levels
    | rebuilding stored watched one read => exact .rebuilding stored watched one read

lemma TriggersKept.next (kept : s.TriggersKept) {event : WatchEvent B}
    (steady : s.Steady X event) : (s.next X event).TriggersKept := by
  have nothing {t : WatchNode} (none : t.registered = ∅) : t.TriggersKept := by
    intro id trigger found
    simp [none] at found
  cases event with
  | node event =>
    cases again : event.restarts with
    | false =>
      rw [next_node again]
      exact kept
    | true =>
      rw [next_restart again]
      refine nothing ?_
      obtain ⟨grows, -⟩ | ⟨⟨view, blocks, rfl⟩, -⟩ | ⟨-, none⟩ := steady
      · simp [grows.not_restarts] at again
      · cases again
      · exact none
  | watch clock position =>
    simp only [WatchNode.next]
    split
    · exact kept
    · intro id trigger found
      simpa only [watch_triggers] using kept id trigger found
  | save stored =>
    simp only [WatchNode.next]
    split <;> exact kept
  | restore clock position readable =>
    simp only [WatchNode.next]
    split
    · exact kept
    · rename_i chain found
      have fits := steady (by simp [found])
      cases present : if readable then s.snapshot else none with
      | some snapshot => exact kept
      | none =>
        rw [present] at fits
        exact nothing fits
  | setExecutor executor => exact kept
  | addTrigger trigger =>
    intro id found present
    rcases lookup_insert_eq_some.mp present with ⟨rfl, rfl⟩ | ⟨other, old⟩
    · exact AList.lookup_insert _
    · exact (AList.lookup_insert_ne other).trans (kept id found old)

/-- In every steady run of a node from any storage, whenever no work is outstanding: a level is the
exact sum over the ledger's chain if and only if the sum is in the range of a 64-bit integer, and
every registered trigger is with the watcher. -/
theorem levels_fold_ledger {verifierKey : B.PrivateKey} {backend : Backend} {store : Store}
    {fresh : Ledger} {snapshot : Option WatcherSnapshot} {t : WatchNode}
    (run : Reaches (Step X) (Steady X (B := B))
      (boot (Materialised.boot X verifierKey backend store fresh) snapshot ∅) t)
    (quiet : t.Quiescent) :
    (∀ product owner, t.watcher.inventory product owner =
        stockLevel t.node.ledger.chain product owner ↔
      -2 ^ 63 ≤ stockLevel t.node.ledger.chain product owner ∧
        stockLevel t.node.ledger.chain product owner < 2 ^ 63) ∧ t.TriggersKept := by
  have kept : t.Tracks ∧ t.TriggersKept := by
    refine run.invariant (I := fun s => s.Tracks ∧ s.TriggersKept) ?_ ?_
    · rintro s event _ ⟨tracks, kept⟩ steady rfl
      exact ⟨tracks.next steady, kept.next steady⟩
    · exact ⟨.boot rfl _ _, fun id trigger found => by simp [boot] at found⟩
  refine ⟨fun product owner => ?_, kept.2⟩
  obtain ⟨idle, watched, -, restored⟩ := quiet
  cases kept.1 with
  | current done _ account levels =>
    have all : done ~ t.node.ledger.chain := by simpa [idle, watched] using account
    rw [levels product owner, stockLevel_perm all, wrap_eq_self]
  | rebuilding _ _ one => simp [idle, restored] at one

section Samples

variable (X)

noncomputable def ready (registered : AList fun _ : String => InventoryTrigger)
    (watcher : WatcherService) : WatchNode :=
  ⟨Materialised.freshNode X, watcher, none, [], 0, [], registered⟩

def restocked : WatcherService :=
  (WatcherService.new.watch X (fun _ => 0) (inventoryUpdates (restockBlock X).transactions)).1

noncomputable def restockedNode : WatchNode :=
  ⟨.restocking X (restockStore X) [], restocked X,
    some ⟨(restocked X).inventory, (restocked X).triggerFireCounts⟩, [], 0, [], ∅⟩

lemma restocked_level : (restocked X).inventory "SKU-1" "owner" = 1 :=
  watch_inventory (show WatcherService.new.inventory _ _ = wrap 0 from rfl)

lemma boot_ready : Step X (boot (freshNode X) none ∅)
    (.restore (fun _ => 0) 0 true : WatchEvent (symbolic 48)) (ready X ∅ .new) := rfl

lemma restock_watched : Reaches (Step X) (Steady X (B := symbolic 48))
    (boot (freshNode X) none ∅) (restockedNode X) := by
  have committed : Step X (ready X ∅ .new)
      (.node (.block (freshView X) (restockBlock X)))
      ⟨.restocking X (freshNode X).store [.post (restockBlock X)], .new, none, [], 0,
        [], ∅⟩ := by
    rw [Step, next_node rfl]
    simp only [ready, freshNode_restock]
    rfl
  have stored : Step X
      ⟨.restocking X (freshNode X).store [.post (restockBlock X)], .new, none, [], 0,
        [], ∅⟩
      (.node (.work 0 .healthy) : WatchEvent (symbolic 48))
      ⟨.restocking X (restockStore X) [.mirror (restockBlock X)], .new, none, [], 0, [], ∅⟩ := by
    obtain ⟨posted, none⟩ := restocking_posted (B := symbolic 48) X
    rw [Step, next_node rfl]
    simp only [posted, none]
    rfl
  have grows : (ready X ∅ .new).Steady X
      (.node (.block (freshView X) (restockBlock X))) :=
    .inl ⟨fun _ => isOk_iff.mpr (restockBlock_chainsTo X), fun _ => ⟨rfl, rfl⟩⟩
  have work (s : WatchNode) : s.Steady X
      (.node (.work 0 .healthy) : WatchEvent (symbolic 48)) :=
    .inl ⟨trivial, fun changed => absurd (congrArg _ (perform_ledger _ _)) changed⟩
  have run := ((Reaches.refl _).tail _ (fun _ => rfl) (boot_ready X)).tail _ grows committed
  have mirrored := (run.tail _ (work _) stored).tail _ (work _) rfl
  have watch (s : WatchNode) : s.Steady X
      (.watch (fun _ => 0) 0 : WatchEvent (symbolic 48)) := trivial
  have save (s : WatchNode) : s.Steady X (.save true : WatchEvent (symbolic 48)) := trivial
  exact (mirrored.tail _ (watch _) rfl).tail _ (save _) rfl

/-- The steps of an adoption of the empty blocks, up to the rebuild of the watcher. -/
theorem adopted_idle (node : Materialised) (idle : node.work = [])
    (start : node.ledger.chain.head? = some (sealedGenesis X)) (short : node.ledger.chain.length < 3)
    (zero : node.ledger.difficulty = 0) (watcher : WatcherService)
    (snapshot : Option WatcherSnapshot) (registered : AList fun _ : String => InventoryTrigger) :
    ∃ after : Materialised, after.work = [] ∧ after.ledger.chain = idleChain X ∧
      Reaches (Step X (B := symbolic 48)) anyStep
        ⟨node, watcher, snapshot, [], 0, [], registered⟩
        ⟨after, watcher, snapshot, [], 0, [idleChain X], registered⟩ := by
  let run := Reaches (Step X (B := symbolic 48)) anyStep
    ⟨node, watcher, snapshot, [], 0, [], registered⟩
  have adopted : run ⟨⟨{ node.ledger with chain := idleChain X }.resetIndexes, node.world,
      node.store, [.adopted]⟩, watcher, snapshot, [], 0, [], registered⟩ := by
    refine (Reaches.refl _).tail (.node (.chain soloView (idleChain X))) trivial ?_
    rw [Step, next_node rfl, next_idle idle start short zero rfl]
    rfl
  have stored : run _ := adopted.tail (.node (.work 0 .healthy)) trivial rfl
  have rebuilt : run _ := stored.tail (.node (.work 0 .healthy)) trivial rfl
  have installed : run _ := rebuilt.tail (.node (.work 0 .healthy)) trivial rfl
  exact ⟨_, rfl, rfl, installed⟩

end Samples

/-- A chain without stock movements is adopted: the level of the abandoned chain comes back from the
snapshot. Without a snapshot the adoption drops a trigger. -/
theorem levels_of_abandoned_chain :
    let X : Externals := .plain 0
    let start :=
      boot (Materialised.boot X (sampleKey 1) .healthy Store.empty (freshPool X).ledger) none ∅
    let run := Reaches (Step X (B := symbolic 48)) anyStep start
    (∃ t, run t ∧ t.Quiescent ∧ t.watcher.inventory "SKU-1" "owner" = 1 ∧
      stockLevel t.node.ledger.chain "SKU-1" "owner" = 0) ∧
    ∃ t, run t ∧ t.Quiescent ∧ ¬t.TriggersKept := by
  intro X start run
  refine ⟨?_, ?_⟩
  · have before : run (restockedNode X) := (restock_watched X).weaken fun _ _ _ => trivial
    obtain ⟨node, idle, chain, adopted⟩ := adopted_idle X
      (.restocking X (restockStore X) []) rfl rfl (by decide) rfl (restocked X)
      (some ⟨(restocked X).inventory, (restocked X).triggerFireCounts⟩) ∅
    have restored : run _ := (before.trans adopted).tail (.restore (fun _ => 0) 0 true) trivial rfl
    refine ⟨_, restored, ⟨idle, rfl, rfl, rfl⟩, restocked_level X, ?_⟩
    show stockLevel node.ledger.chain "SKU-1" "owner" = 0
    rw [chain]
    rfl
  · let trigger : InventoryTrigger :=
      ⟨"trigger-1", "SKU-1", "owner", 10, 100, "seller-1", 1500, "USD", true, none⟩
    have ready : run (ready X ∅ .new) := (Reaches.refl _).tail _ trivial (boot_ready X)
    have registered : run _ := ready.tail (.addTrigger trigger) trivial rfl
    obtain ⟨node, idle, -, adopted⟩ := adopted_idle X (.freshNode X) rfl rfl (by decide) rfl
      (WatcherService.new.addTrigger trigger) none
      ((∅ : AList fun _ : String => InventoryTrigger).insert trigger.triggerId trigger)
    have restored : run _ :=
      (registered.trans adopted).tail (.restore (fun _ => 0) 0 true) trivial rfl
    refine ⟨_, restored, ⟨idle, rfl, rfl, rfl⟩, fun kept => ?_⟩
    have lost := kept trigger.triggerId trigger (AList.lookup_insert _)
    cases lost

/-- A node that commits a stock movement has its level. -/
theorem levels_fold_restock : ∃ t : WatchNode, t.Quiescent ∧
    stockLevel t.node.ledger.chain "SKU-1" "owner" = 1 ∧
      t.watcher.inventory "SKU-1" "owner" = 1 := by
  have level : stockLevel (restockedNode (.plain 0)).node.ledger.chain "SKU-1" "owner" = 1 := rfl
  have folds := levels_fold_ledger (restock_watched (.plain 0)) ⟨rfl, rfl, rfl, rfl⟩
  refine ⟨_, ⟨rfl, rfl, rfl, rfl⟩, level, ?_⟩
  rw [(folds.1 "SKU-1" "owner").mpr (by rw [level]; decide), level]

end WatchNode

end GlassChain
