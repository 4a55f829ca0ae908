import GlassChain.Library.Preceded
import GlassChain.Network.Submission
import GlassChain.Workflows.Watcher

/-!
# Is a configured gate ever bypassed?

`set_execution_provider` hands the executor to the contract engine and to the watcher, and each runs
its gates only while it holds one. The rebuild after a chain replacement puts a new engine in place
of the old one, and a new watcher unless a snapshot is stored; neither has an executor, and the
gates of all modules are open until the provider is attached again.
-/

namespace GlassChain

open Library List

/-- A gate that ran, or a purchase that was generated. -/
inductive AutomationEvent where
  | engine (event : EngineEvent)
  | watcher (event : WatcherEvent)

/-- The two components, and the events of each evaluation so far. -/
structure RuntimeState where
  engine : ContractEngine
  watcher : WatcherService
  trace : List (List AutomationEvent)

inductive RuntimeInput where
  | setExecutionProvider (executor : ExecutionProvider)
  | addTrigger (trigger : InventoryTrigger)
  /-- A submission or a peer's transaction. -/
  | transaction (clock : String → Nat) (tx : Transaction)
  /-- `after_block_commit`, for a block of the node or of a peer. -/
  | committed (clock : String → Nat) (block : Block)
  /-- `rebuild_runtime_state_from_chain`, with the snapshot if one is stored and readable. -/
  | rebuilt (clock : String → Nat) (chain : List Block) (snapshot : Option WatcherSnapshot)

def inventoryUpdates (txs : List Transaction) : List InventoryUpdate :=
  txs.filterMap fun tx => match tx.kind with
    | .inventoryUpdate update => some update
    | _ => none

/-- The watcher over a sequence of updates, with the events of each. -/
def WatcherService.watch (X : Externals) (clock : String → Nat) :
    WatcherService → List InventoryUpdate → WatcherService × List (List WatcherEvent)
  | W, [] => (W, [])
  | W, update :: rest =>
    let fired := W.onInventoryUpdate X clock update
    let others := watch X clock fired.1 rest
    (others.1, fired.2 :: others.2)

def WatcherService.rebuild (X : Externals) (clock : String → Nat) (W : WatcherService)
    (chain : List Block) : Option WatcherSnapshot → WatcherService
  | some snapshot => W.applySnapshot snapshot
  | none => (new.watch X clock (inventoryUpdates (chain.flatMap Block.transactions))).1

def RuntimeInput.next (X : Externals) (J : OfferJson) (s : RuntimeState) :
    RuntimeInput → RuntimeState
  | .setExecutionProvider executor =>
    { s with engine := s.engine.setExecutor executor, watcher := s.watcher.setExecutor executor }
  | .addTrigger trigger => { s with watcher := s.watcher.addTrigger trigger }
  | .transaction clock tx =>
    let evaluated := s.engine.onPeer X J clock tx
    { s with
      engine := evaluated.1
      trace := s.trace ++ [evaluated.2.map .engine] }
  | .committed clock block =>
    let watched := s.watcher.watch X clock (inventoryUpdates block.transactions)
    { s with
      watcher := watched.1
      trace := s.trace ++ watched.2.map (List.map .watcher) }
  | .rebuilt clock chain snapshot =>
    { s with
      engine := .rebuildFromChain chain
      watcher := s.watcher.rebuild X clock chain snapshot }

def RuntimeInput.Step (X : Externals) (J : OfferJson) (s : RuntimeState) (input : RuntimeInput)
    (t : RuntimeState) : Prop :=
  input.next X J s = t

def AutomationEvent.NeedsApproval : AutomationEvent → Prop
  | .engine (.purchased contract _ _ _) => contract.wasmCodeB64.isSome = true
  | .watcher (.ordered trigger _ _) => trigger.wasmCodeB64.isSome = true
  | _ => False

/-- An evaluation of the module of a purchase, for its offer or its inventory level, that
approved. -/
def AutomationEvent.Approves (J : OfferJson) : AutomationEvent → AutomationEvent → Prop
  | .engine (.gated run), .engine (.purchased contract offer offerTxId _) =>
    run.decision = .approved ∧ contract.wasmCodeB64 = some run.wasmCodeB64 ∧
      run.executionId = s!"wasm:{contract.contractId}:{offerTxId}" ∧
      run.initialState = offerState J offer
  | .watcher (.gated run), .watcher (.ordered trigger level _) =>
    run.decision = .approved ∧ trigger.wasmCodeB64 = some run.wasmCodeB64 ∧
      run.executionId = trigger.triggerId ∧ run.initialState = .ok (triggerState trigger level)
  | _, _ => False

/-- In the events of one evaluation, each purchase that needs approval comes after it. -/
def Approved (J : OfferJson) (events : List AutomationEvent) : Prop :=
  Preceded AutomationEvent.NeedsApproval (AutomationEvent.Approves J) events

/-- An executor is attached to what the input evaluates, or no module is concerned. -/
def Guarded (s : RuntimeState) : RuntimeInput → Prop
  | .transaction _ tx => s.engine.executor.isSome = true ∨ ∀ offer, tx.kind = .supplyOffer offer →
      ∀ id c, s.engine.getContract id = some c → c.takes offer = true →
        c.definition.wasmCodeB64 = none
  | .committed _ block => s.watcher.executor.isSome = true ∨
      inventoryUpdates block.transactions = [] ∨
      ∀ trigger ∈ s.watcher.triggers.entries.map Sigma.snd, trigger.wasmCodeB64 = none
  | _ => True

section Evaluations

variable {X : Externals} {J : OfferJson} {clock : String → Nat}

lemma approved_of_purchases_nil {events : List EngineEvent} (none : purchases events = []) :
    Approved J (events.map .engine) := by
  refine .of_no_need fun event member need => ?_
  obtain ⟨e, own, rfl⟩ := mem_map.mp member
  cases e with
  | gated run => exact need
  | purchased contract offer offerTxId tx =>
    have generated : tx ∈ purchases events := mem_filterMap.mpr ⟨_, own, rfl⟩
    rw [none] at generated
    cases generated

lemma Contract.approved_evaluate {executor : Option ExecutionProvider} {offer : SupplyOffer}
    {offerTxId : String} {c : Contract}
    (guarded : executor.isSome = true ∨ (c.takes offer = true → c.definition.wasmCodeB64 = none)) :
    Approved J ((c.evaluate X J executor clock offer offerTxId).2.map .engine) := by
  rcases evaluate_cases X J executor clock offer offerTxId c with
    ⟨-, none⟩ | ⟨-, -, none⟩ | ⟨plan, takes, -, passed, bought⟩
  · exact approved_of_purchases_nil none
  · exact approved_of_purchases_nil none
  · rw [bought]
    cases module : c.definition.wasmCodeB64 with
    | none => exact .of_no_need (by simp [gate, module, AutomationEvent.NeedsApproval])
    | some wasm =>
      cases executor with
      | none => simp [takes, module] at guarded
      | some executor =>
        simp only [gate, module, beq_iff_eq, cons_append, nil_append, map_cons, map_nil] at passed ⊢
        refine .cons not_false fun event member _ => ?_
        rcases mem_pair.mp member with rfl | rfl
        · exact ⟨passed, module, rfl, rfl⟩
        · exact ⟨passed, module, rfl, rfl⟩

variable {W : WatcherService}

lemma WatcherService.approved_fire {trigger : InventoryTrigger} {update : InventoryUpdate}
    {level : Int} (guarded : W.executor.isSome = true ∨ trigger.wasmCodeB64 = none) :
    Approved J ((W.fire X clock update level trigger).2.map .watcher) := by
  cases module : trigger.wasmCodeB64 with
  | none =>
    exact .of_no_need (by simp [fire, InventoryTrigger.gate, module, AutomationEvent.NeedsApproval])
  | some wasm =>
    cases attached : W.executor with
    | none => simp [attached, module] at guarded
    | some executor =>
      simp only [fire, InventoryTrigger.gate, module, attached]
      split
      · next runs denied =>
        obtain ⟨rfl, -⟩ := Prod.mk.inj denied
        exact .of_no_need (by simp [AutomationEvent.NeedsApproval])
      · next runs passed =>
        obtain ⟨rfl, approved⟩ := Prod.mk.inj passed
        refine .cons not_false fun event member _ => ?_
        obtain rfl := mem_singleton.mp member
        exact ⟨beq_iff_eq.mp approved, module, rfl, rfl⟩

lemma ContractEngine.approved_onPeer {E : ContractEngine} {tx : Transaction}
    (guarded : E.executor.isSome = true ∨ ∀ offer, tx.kind = .supplyOffer offer →
      ∀ id c, E.getContract id = some c → c.takes offer = true → c.definition.wasmCodeB64 = none) :
    Approved J ((E.onPeer X J clock tx).2.map .engine) := by
  unfold onPeer
  split
  · next offer kind =>
    simp only [evaluateSupplyOffer, map_flatMap]
    refine .flatMap fun entry member => Contract.approved_evaluate ?_
    refine guarded.imp_right fun free => free offer kind entry.1 entry.2 ?_
    exact Std.TreeMap.mem_toList_iff_getElem?_eq_some.mp member
  · exact .of_no_need (by simp)
  · exact .of_no_need (by simp)

lemma WatcherService.fire_frame (X : Externals) (clock : String → Nat) (W : WatcherService)
    (update : InventoryUpdate) (level : Int) (trigger : InventoryTrigger) :
    (W.fire X clock update level trigger).1.executor = W.executor ∧
      (W.fire X clock update level trigger).1.triggers = W.triggers := by
  simp only [fire]
  split <;> exact ⟨rfl, rfl⟩

lemma WatcherService.approved_fireAll {triggers : List InventoryTrigger}
    {update : InventoryUpdate} {level : Int}
    (guarded : W.executor.isSome = true ∨ ∀ trigger ∈ triggers, trigger.wasmCodeB64 = none) :
    Approved J ((W.fireAll X clock update level triggers).2.map .watcher) ∧
      (W.fireAll X clock update level triggers).1.executor = W.executor ∧
      (W.fireAll X clock update level triggers).1.triggers = W.triggers := by
  induction triggers generalizing W with
  | nil => exact ⟨.of_no_need (by simp [fireAll]), rfl, rfl⟩
  | cons trigger rest ih =>
    obtain ⟨executor, same⟩ := fire_frame X clock W update level trigger
    have later : (W.fire X clock update level trigger).1.executor.isSome = true ∨
        ∀ t ∈ rest, t.wasmCodeB64 = none := by
      rw [executor]
      exact guarded.imp_right fun free t member => free t (mem_cons_of_mem _ member)
    obtain ⟨others, executor', same'⟩ := ih later
    refine ⟨?_, executor'.trans executor, same'.trans same⟩
    simp only [fireAll, map_append]
    refine Preceded.append (approved_fire ?_) others
    exact guarded.imp_right fun free => free trigger mem_cons_self

lemma WatcherService.approved_onInventoryUpdate (X : Externals) (J : OfferJson)
    (clock : String → Nat) (update : InventoryUpdate) (guarded : W.executor.isSome = true ∨
      ∀ trigger ∈ W.triggers.entries.map Sigma.snd, trigger.wasmCodeB64 = none) :
    Approved J ((W.onInventoryUpdate X clock update).2.map .watcher) ∧
      (W.onInventoryUpdate X clock update).1.executor = W.executor ∧
      (W.onInventoryUpdate X clock update).1.triggers = W.triggers := by
  refine approved_fireAll (guarded.imp_right fun free trigger firing => ?_)
  exact free trigger (mem_of_mem_filter firing)

lemma WatcherService.approved_watch {updates : List InventoryUpdate}
    (guarded : W.executor.isSome = true ∨ updates = [] ∨
      ∀ trigger ∈ W.triggers.entries.map Sigma.snd, trigger.wasmCodeB64 = none) :
    ∀ events ∈ (W.watch X clock updates).2, Approved J (events.map .watcher) := by
  induction updates generalizing W with
  | nil => simp [watch]
  | cons update rest ih =>
    have now : W.executor.isSome = true ∨
        ∀ trigger ∈ W.triggers.entries.map Sigma.snd, trigger.wasmCodeB64 = none := by
      simpa using guarded
    obtain ⟨first, executor, same⟩ := approved_onInventoryUpdate X J clock update now
    intro events member
    rcases mem_cons.mp member with rfl | later
    · exact first
    · refine ih ?_ events later
      rw [executor, same]
      exact now.imp_right .inr

end Evaluations

/-- In every run whose evaluations are guarded, every purchase for a contract or a trigger with a
module comes after an approval of the module in the same evaluation. -/
theorem gate_not_bypassed_along_runs (X : Externals) (J : OfferJson) {start final : RuntimeState}
    (fresh : start.trace = []) (run : Reaches (RuntimeInput.Step X J) Guarded start final) :
    ∀ events ∈ final.trace, Approved J events := by
  refine run.invariant (I := fun s => ∀ events ∈ s.trace, Approved J events) ?_ (by simp [fresh])
  rintro s input t before guarded rfl events member
  cases input with
  | setExecutionProvider executor => exact before events member
  | addTrigger trigger => exact before events member
  | rebuilt clock chain snapshot => exact before events member
  | transaction clock tx =>
    rcases mem_append.mp member with old | new
    · exact before events old
    · rw [mem_singleton.mp new]
      exact ContractEngine.approved_onPeer guarded
  | committed clock block =>
    rcases mem_append.mp member with old | new
    · exact before events old
    · obtain ⟨own, fired, rfl⟩ := mem_map.mp new
      exact WatcherService.approved_watch guarded own fired

def gatedDefinition : SmartContractDef :=
  ⟨"contract-1", "buyer-1", "SKU-1", ⟨1500, 10, 100, 14, none, "USD", true⟩, some "AGFzbQ=="⟩

def gatedCreation : Transaction := ⟨"creation-1", 0, .contractCreation gatedDefinition, []⟩

def gatedOffer : Transaction :=
  ⟨"offer-1", 0, .supplyOffer ⟨"SKU-1", "Widget", "seller-1", 60, 1250, 7, "USD"⟩, []⟩

def gatedChain : List Block := [⟨0, 0, [gatedCreation], [], "0", 0, "", none⟩]

def constantExecutor (approve : Bool) : ExecutionProvider :=
  fun _ _ _ _ => .ok ⟨if approve then [("approve", utf8 "1")] else [], []⟩

def runtimeSample (X : Externals) (approve : Bool) (inputs : List RuntimeInput) : RuntimeState :=
  inputs.foldl (fun s input => input.next X (fun _ => .ok []) s)
    (RuntimeInput.next X (fun _ => .ok []) ⟨.new, .new, []⟩
      (.setExecutionProvider (constantExecutor approve)))

noncomputable def decoding : Externals :=
  { Externals.plain 0 with base64Decode := fun _ => some [] }

/-- The provider is attached and its module refuses every offer. A purchase is generated after a
chain replacement, without an evaluation of the module. -/
theorem rebuilt_engine_skips_gate :
    let clock : String → Nat := fun _ => 0
    let before := runtimeSample decoding false [.transaction clock gatedCreation]
    let final := runtimeSample decoding false [.transaction clock gatedCreation,
      .rebuilt clock gatedChain none, .transaction clock gatedOffer]
    purchases (before.engine.onPeer decoding (fun _ => .ok []) clock gatedOffer).2 = [] ∧
      Reaches (RuntimeInput.Step decoding fun _ => .ok []) anyStep (runtimeSample decoding false [])
        final ∧ ¬∀ events ∈ final.trace, Approved (fun _ => .ok []) events := by
  intro clock before final
  have run : Reaches (RuntimeInput.Step decoding fun _ => .ok []) anyStep
      (runtimeSample decoding false []) final :=
    (((Reaches.refl _).tail (.transaction clock gatedCreation) trivial rfl).tail
      (.rebuilt clock gatedChain none) trivial rfl).tail (.transaction clock gatedOffer) trivial rfl
  refine ⟨rfl, run, fun approved => ?_⟩
  obtain ⟨offer, order, rest, trace⟩ : ∃ offer order rest, final.trace =
      [[], .engine (.purchased gatedDefinition offer "offer-1" order) :: rest] := ⟨_, _, _, rfl⟩
  have bought : Approved (fun _ => .ok [])
      (.engine (.purchased gatedDefinition offer "offer-1" order) :: rest) :=
    approved _ (by simp [trace])
  obtain ⟨g, none, -⟩ := bought [] _ rest rfl rfl
  cases none

/-- With an approving module and no replacement the purchase comes after the approval. -/
theorem gate_not_bypassed_sample :
    let clock : String → Nat := fun _ => 0
    let final := runtimeSample decoding true [.transaction clock gatedCreation,
      .transaction clock gatedOffer]
    final.trace.map List.length = [0, 3] ∧
      ∀ events ∈ final.trace, Approved (fun _ => .ok []) events := by
  intro clock final
  have run : Reaches (RuntimeInput.Step decoding fun _ => .ok []) Guarded
      (runtimeSample decoding true []) final :=
    ((Reaches.refl _).tail (.transaction clock gatedCreation) (.inl rfl) rfl).tail
      (.transaction clock gatedOffer) (.inl rfl) rfl
  exact ⟨rfl, gate_not_bypassed_along_runs decoding (fun _ => .ok []) rfl run⟩

end GlassChain
