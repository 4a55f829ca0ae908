import GlassChain.Contracts.Engine

/-!
# The watcher

Inventory triggers order stock when an update brings a level to their threshold or below. A trigger
may carry a WASM module, which an approval gate runs first when an executor is attached; without an
executor the trigger fires as if it had none. Triggers are no part of the snapshot that survives a
restart.
-/

namespace GlassChain

structure InventoryTrigger where
  triggerId : String
  productId : String
  ownerId : String
  reorderThreshold : Int
  reorderQuantity : Nat
  sellerId : String
  pricePerUnit : Nat
  currency : String
  active : Bool
  wasmCodeB64 : Option String
  deriving DecidableEq, Repr

/-- `WatcherStateSnapshot`: levels by product and owner, and fire counts by trigger. -/
structure WatcherSnapshot where
  inventory : String → String → Int
  triggerFireCounts : String → Nat

structure WatcherService where
  triggers : AList fun _ : String => InventoryTrigger
  inventory : String → String → Int
  triggerFireCounts : String → Nat
  executor : Option ExecutionProvider

/-- What an inventory update makes the watcher do for one trigger, in order. -/
inductive WatcherEvent where
  | gated (run : GateRun)
  | ordered (trigger : InventoryTrigger) (level : Int) (tx : Transaction)

def triggerState (trigger : InventoryTrigger) (level : Int) : WorldState :=
  (((∅ : WorldState).insert "inventory_level" (utf8 (toString level))).insert "threshold"
    (utf8 (toString trigger.reorderThreshold))).insert "product_id" (utf8 trigger.productId)

namespace InventoryTrigger

def fires (update : InventoryUpdate) (level : Int) (trigger : InventoryTrigger) : Bool :=
  trigger.active && trigger.productId == update.productId && trigger.ownerId == update.ownerId &&
    level ≤ trigger.reorderThreshold

def order (clock : String → Nat) (update : InventoryUpdate) (count : Nat)
    (trigger : InventoryTrigger) : Transaction :=
  .withId clock s!"watcher:{trigger.triggerId}:{update.productId}:{update.ownerId}:{count}"
    (.purchaseOrder
      { productId := trigger.productId
        buyerId := trigger.ownerId
        sellerId := trigger.sellerId
        quantity := trigger.reorderQuantity
        agreedPricePerUnit := trigger.pricePerUnit
        currency := trigger.currency
        contractId := some trigger.triggerId })

/-- The gate of one trigger, if it has a module and an executor is attached: what it ran, and
whether the order goes out. -/
def gate (X : Externals) (executor : Option ExecutionProvider) (level : Int)
    (trigger : InventoryTrigger) : List WatcherEvent × Bool :=
  match trigger.wasmCodeB64, executor with
  | some wasmB64, some executor =>
    let decision := approvalGate X executor .inventoryTrigger trigger.triggerId wasmB64
      (.ok (triggerState trigger level))
    ([.gated ⟨trigger.triggerId, wasmB64, .ok (triggerState trigger level), decision⟩],
      decision == .approved)
  | _, _ => ([], true)

end InventoryTrigger

namespace WatcherService

def new : WatcherService := ⟨∅, fun _ _ => 0, fun _ => 0, none⟩

variable (W : WatcherService)

def setExecutor (executor : ExecutionProvider) : WatcherService :=
  { W with executor := some executor }

def addTrigger (trigger : InventoryTrigger) : WatcherService :=
  { W with triggers := W.triggers.insert trigger.triggerId trigger }

def setActive (triggerId : String) (active : Bool) : WatcherService :=
  match W.triggers.lookup triggerId with
  | some trigger => { W with triggers := W.triggers.insert triggerId { trigger with active := active } }
  | none => W

def disableTrigger (triggerId : String) : WatcherService :=
  W.setActive triggerId false

def enableTrigger (triggerId : String) : WatcherService :=
  W.setActive triggerId true

def toSnapshot : WatcherSnapshot := ⟨W.inventory, W.triggerFireCounts⟩

def applySnapshot (snapshot : WatcherSnapshot) : WatcherService :=
  { W with inventory := snapshot.inventory, triggerFireCounts := snapshot.triggerFireCounts }

/-- One firing trigger; the count moves even if the gate denies. -/
def fire (X : Externals) (clock : String → Nat) (update : InventoryUpdate) (level : Int)
    (W : WatcherService) (trigger : InventoryTrigger) : WatcherService × List WatcherEvent :=
  let count := (W.triggerFireCounts trigger.triggerId + 1) % 2 ^ 64
  let W := { W with
    triggerFireCounts := Function.update W.triggerFireCounts trigger.triggerId count }
  match trigger.gate X W.executor level with
  | (runs, false) => (W, runs)
  | (runs, true) => (W, runs ++ [.ordered trigger level (trigger.order clock update count)])

def fireAll (X : Externals) (clock : String → Nat) (update : InventoryUpdate) (level : Int) :
    WatcherService → List InventoryTrigger → WatcherService × List WatcherEvent
  | W, [] => (W, [])
  | W, trigger :: rest =>
    let fired := W.fire X clock update level trigger
    let others := fireAll X clock update level fired.1 rest
    (others.1, fired.2 ++ others.2)

def onInventoryUpdate (X : Externals) (clock : String → Nat) (W : WatcherService)
    (update : InventoryUpdate) : WatcherService × List WatcherEvent :=
  let level := (W.inventory update.productId update.ownerId + update.quantityDelta).bmod (2 ^ 64)
  let W := { W with
    inventory := Function.update W.inventory update.productId
      (Function.update (W.inventory update.productId) update.ownerId level) }
  W.fireAll X clock update level
    ((W.triggers.entries.map Sigma.snd).filter (InventoryTrigger.fires update level))

end WatcherService

end GlassChain
