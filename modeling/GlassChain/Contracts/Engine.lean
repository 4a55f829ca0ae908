import GlassChain.Library.OrderedMap
import GlassChain.Vm.Wasm

/-!
# The contract engine

Contracts are evaluated against every supply offer the node sees; a match orders what is left of the
contract's budget. A contract may carry a WASM module, which an approval gate runs first when an
executor is attached. The engine keeps its contracts in key order (`BTreeMap`). Next to the
transactions an evaluation generates, the model keeps the gate evaluations it made, in the order in
which they happen.
-/

namespace GlassChain

open Std.TreeMap Option

inductive ApprovalGatePolicy where
  | contractEvaluation
  | inventoryTrigger
  deriving DecidableEq, Repr

def ApprovalGatePolicy.limits : ApprovalGatePolicy → ExecutionLimits
  | contractEvaluation => ⟨50000, 50000⟩
  | inventoryTrigger => ⟨100000, 100000⟩

/-- Why a gate denied; the text of the base64 decoder is left out. -/
inductive GateDenial where
  | invalidPayload
  | statePreparation (error : String)
  | execution (error : String)
  | missingApproval
  deriving DecidableEq, Repr

inductive GateDecision where
  | approved
  | denied (reason : GateDenial)
  deriving DecidableEq, Repr

/-- `ApprovalGate::evaluate`: only ephemeral output approves. -/
def approvalGate (X : Externals) (executor : ExecutionProvider) (policy : ApprovalGatePolicy)
    (executionId wasmCodeB64 : String) (initialState : Except String WorldState) : GateDecision :=
  match X.base64Decode wasmCodeB64 with
  | none => .denied .invalidPayload
  | some wasm => match initialState with
    | .error e => .denied (.statePreparation e)
    | .ok state => match executor executionId wasm state policy.limits with
      | .error e => .denied (.execution e.display)
      | .ok result =>
        if result.ephemeral.any fun e => e.1 == "approve" && e.2 == utf8 "1" then .approved
        else .denied .missingApproval

/-- One evaluation of a gate: its arguments and its decision. -/
structure GateRun where
  executionId : String
  wasmCodeB64 : String
  initialState : Except String WorldState
  decision : GateDecision

inductive ContractStatus where
  | active
  | paused
  | fulfilled
  | cancelled
  deriving DecidableEq, Repr

structure Contract where
  definition : SmartContractDef
  status : ContractStatus
  /-- A `u64`. -/
  quantityPurchased : Nat
  /-- A `u32`. -/
  executionCount : Nat
  deriving DecidableEq, Repr

/-- `Transaction::with_id`; the clock may read differently for each transaction. -/
def Transaction.withId (clock : String → Nat) (id : String) (kind : TransactionKind) : Transaction :=
  ⟨id, clock id, kind, []⟩

structure PurchasePlan where
  purchaseOrder : Transaction
  execution : Transaction
  quantity : Nat

/-- What an evaluation of an offer does for one contract, in order. -/
inductive EngineEvent where
  | gated (run : GateRun)
  | purchased (contract : SmartContractDef) (offer : SupplyOffer) (offerTxId : String)
      (tx : Transaction)

/-- `serde_json::to_vec` of an offer. -/
abbrev OfferJson := SupplyOffer → Except String Bytes

def offerState (J : OfferJson) (offer : SupplyOffer) : Except String WorldState :=
  (J offer).map fun json => (∅ : WorldState).insert "offer" json

def executionTxId (contractId offerTxId : String) : String := s!"exec:{contractId}-{offerTxId}"

def purchaseOrderTxId (contractId offerTxId : String) : String := s!"po:{contractId}-{offerTxId}"

lemma toList_executionTxId (contractId offerTxId : String) :
    (executionTxId contractId offerTxId).toList =
      ['e', 'x', 'e', 'c', ':'] ++ contractId.toList ++ '-' :: offerTxId.toList := by
  have spelled : executionTxId contractId offerTxId =
      "exec:" ++ contractId ++ "-" ++ offerTxId := rfl
  simp [spelled]

lemma toList_purchaseOrderTxId (contractId offerTxId : String) :
    (purchaseOrderTxId contractId offerTxId).toList =
      ['p', 'o', ':'] ++ contractId.toList ++ '-' :: offerTxId.toList := by
  have spelled : purchaseOrderTxId contractId offerTxId =
      "po:" ++ contractId ++ "-" ++ offerTxId := rfl
  simp [spelled]

/-- The ids of orders and executions start differently. -/
lemma executionTxId_ne_order (a b c d : String) : executionTxId a b ≠ purchaseOrderTxId c d := by
  intro same
  have lists := congrArg String.toList same
  simp [toList_executionTxId, toList_purchaseOrderTxId] at lists

namespace Contract

def new (definition : SmartContractDef) : Contract := ⟨definition, .active, 0, 0⟩

def isActive (c : Contract) : Bool := c.status == .active

def conditions (c : Contract) : PurchaseConditions := c.definition.conditions

def id (c : Contract) : String := c.definition.contractId

def offerMatches (c : Contract) (offer : SupplyOffer) : Bool :=
  c.definition.productId == offer.productId && c.conditions.currency == offer.currency &&
    offer.pricePerUnit ≤ c.conditions.maxPricePerUnit &&
    offer.leadTimeDays ≤ c.conditions.maxLeadTimeDays &&
    c.conditions.minQuantity ≤ offer.quantityAvailable &&
    c.conditions.preferredSellerId.all fun preferred => preferred == offer.sellerId

def remaining (c : Contract) : Nat := c.conditions.maxQuantity - c.quantityPurchased

def orderedQuantity (c : Contract) (offer : SupplyOffer) : Nat :=
  min (min c.remaining offer.quantityAvailable) c.conditions.maxQuantity

def preparePurchase (clock : String → Nat) (c : Contract) (offer : SupplyOffer)
    (offerTxId : String) : Option PurchasePlan :=
  if c.remaining = 0 then none
  else
    let quantity := c.orderedQuantity offer
    let order := Transaction.withId clock (purchaseOrderTxId c.id offerTxId) (.purchaseOrder
      { productId := offer.productId
        buyerId := c.definition.buyerId
        sellerId := offer.sellerId
        quantity := quantity
        agreedPricePerUnit := offer.pricePerUnit
        currency := offer.currency
        contractId := some c.id })
    some
      { purchaseOrder := order
        execution := Transaction.withId clock (executionTxId c.id offerTxId) (.contractExecution
          { contractId := c.id
            purchaseOrderTxId := order.id
            buyerId := c.definition.buyerId
            sellerId := offer.sellerId
            productId := offer.productId
            quantity := quantity
            totalPrice := min (quantity * offer.pricePerUnit) u64Max
            currency := offer.currency })
        quantity := quantity }

def book (c : Contract) (quantity : Nat) : Contract :=
  let purchased := (c.quantityPurchased + quantity) % 2 ^ 64
  { c with
    quantityPurchased := purchased
    executionCount := (c.executionCount + 1) % 2 ^ 32
    status := if c.conditions.maxQuantity ≤ purchased then .fulfilled else c.status }

/-- The gate of one contract, if it has a module and an executor is attached: what it ran, and
whether the evaluation goes on. -/
def gate (X : Externals) (J : OfferJson) (executor : Option ExecutionProvider) (c : Contract)
    (offer : SupplyOffer) (offerTxId : String) : List EngineEvent × Bool :=
  match c.definition.wasmCodeB64, executor with
  | some wasmB64, some executor =>
    let executionId := s!"wasm:{c.id}:{offerTxId}"
    let decision := approvalGate X executor .contractEvaluation executionId wasmB64
      (offerState J offer)
    ([.gated ⟨executionId, wasmB64, offerState J offer, decision⟩], decision == .approved)
  | _, _ => ([], true)

def evaluate (X : Externals) (J : OfferJson) (executor : Option ExecutionProvider)
    (clock : String → Nat) (offer : SupplyOffer) (offerTxId : String) (c : Contract) :
    Contract × List EngineEvent :=
  if !c.isActive then (c, [])
  else match c.gate X J executor offer offerTxId with
    | (runs, false) => (c, runs)
    | (runs, true) =>
      if !c.offerMatches offer then (c, runs)
      else if !c.conditions.autoExecute then (c, runs)
      else match c.preparePurchase clock offer offerTxId with
        | none => ({ c with status := .fulfilled }, runs)
        | some plan => (c.book plan.quantity, runs ++
            [.purchased c.definition offer offerTxId plan.purchaseOrder,
              .purchased c.definition offer offerTxId plan.execution])

end Contract

def purchases (events : List EngineEvent) : List Transaction :=
  events.filterMap fun event => match event with
    | .purchased _ _ _ tx => some tx
    | .gated _ => none

@[simp]
lemma purchases_nil : purchases [] = [] := rfl

@[simp]
lemma purchases_append (a b : List EngineEvent) :
    purchases (a ++ b) = purchases a ++ purchases b :=
  List.filterMap_append

namespace Contract

variable {X : Externals} {J : OfferJson} {executor : Option ExecutionProvider}
  {clock : String → Nat} {offer : SupplyOffer} {offerTxId : String} {c : Contract}

def takes (c : Contract) (offer : SupplyOffer) : Bool :=
  c.isActive && c.offerMatches offer && c.conditions.autoExecute && c.remaining != 0

@[simp]
lemma book_definition (c : Contract) (quantity : Nat) :
    (c.book quantity).definition = c.definition := rfl

lemma book_status (c : Contract) (quantity : Nat) : (c.book quantity).status =
    if c.conditions.maxQuantity ≤ (c.book quantity).quantityPurchased then .fulfilled
    else c.status := rfl

/-- A gate only leaves its own run. -/
theorem gate_purchases (c : Contract) : purchases (c.gate X J executor offer offerTxId).1 = [] := by
  unfold gate
  split <;> rfl

variable (X J executor clock offer offerTxId c)

/-- What one iteration can do: nothing, close an exhausted contract, or purchase. -/
theorem evaluate_cases :
    (c.evaluate X J executor clock offer offerTxId).1 = c ∧
        purchases (c.evaluate X J executor clock offer offerTxId).2 = [] ∨
      c.remaining = 0 ∧
        (c.evaluate X J executor clock offer offerTxId).1 = { c with status := .fulfilled } ∧
        purchases (c.evaluate X J executor clock offer offerTxId).2 = [] ∨
      ∃ plan, c.takes offer = true ∧ c.preparePurchase clock offer offerTxId = some plan ∧
        (c.gate X J executor offer offerTxId).2 = true ∧
        c.evaluate X J executor clock offer offerTxId = (c.book plan.quantity,
          (c.gate X J executor offer offerTxId).1 ++
            [.purchased c.definition offer offerTxId plan.purchaseOrder,
              .purchased c.definition offer offerTxId plan.execution]) := by
  unfold evaluate
  split
  · exact .inl ⟨rfl, rfl⟩
  rename_i active
  have quiet : purchases (c.gate X J executor offer offerTxId).1 = [] := gate_purchases c
  rcases gated : c.gate X J executor offer offerTxId with ⟨runs, _ | _⟩
  all_goals rw [gated] at quiet
  · exact .inl ⟨rfl, quiet⟩
  simp only
  split
  · exact .inl ⟨rfl, quiet⟩
  rename_i wanted
  split
  · exact .inl ⟨rfl, quiet⟩
  rename_i automatic
  cases prepared : c.preparePurchase clock offer offerTxId with
  | none =>
    refine .inr (.inl ⟨?_, rfl, quiet⟩)
    unfold preparePurchase at prepared
    split at prepared
    · assumption
    · cases prepared
  | some plan =>
    have left : c.remaining ≠ 0 := by
      intro spent
      simp [preparePurchase, spent] at prepared
    have takes : c.takes offer = true := by
      unfold Contract.takes
      simp_all
    exact .inr (.inr ⟨plan, takes, rfl, trivial, rfl⟩)

lemma evaluate_definition :
    (c.evaluate X J executor clock offer offerTxId).1.definition = c.definition := by
  rcases evaluate_cases X J executor clock offer offerTxId c with
    ⟨same, -⟩ | ⟨-, closed, -⟩ | ⟨plan, -, -, -, bought⟩
  · rw [same]
  · rw [closed]
  · rw [bought, book_definition]

end Contract

inductive ContractError where
  | notFound (id : String)
  | alreadyExists (id : String)
  | inactive (id : String)
  deriving DecidableEq, Repr

/-- `ContractEngine`; a contract is kept under its own identifier. -/
structure ContractEngine where
  contracts : Std.TreeMap String Contract
  executor : Option ExecutionProvider
  keyed : ∀ (id : String) (c : Contract), contracts[id]? = some c → c.id = id

namespace ContractEngine

def new : ContractEngine := ⟨∅, none, by simp⟩

variable (E : ContractEngine)

def setExecutor (executor : ExecutionProvider) : ContractEngine :=
  { E with executor := some executor }

def getContract (id : String) : Option Contract := E.contracts[id]?

/-- `load_from_ledger`: the first definition of an identifier stays. -/
def loadFromLedger (definition : SmartContractDef) : ContractEngine :=
  if E.contracts.contains definition.contractId then E
  else
    { E with
      contracts := E.contracts.insert definition.contractId (.new definition)
      keyed := by
        intro id c found
        rw [getElem?_insert] at found
        split at found
        · rename_i same
          cases found
          exact Std.LawfulEqCmp.eq_of_compare same
        · exact E.keyed id c found }

def registerContract (definition : SmartContractDef) : ContractEngine × Except ContractError Unit :=
  if E.contracts.contains definition.contractId then
    (E, .error (.alreadyExists definition.contractId))
  else (E.loadFromLedger definition, .ok ())

def setStatus (id : String) (status : ContractStatus) : ContractEngine :=
  { E with
    contracts := E.contracts.modify id fun c => { c with status := status }
    keyed := by
      intro key c found
      rw [getElem?_modify] at found
      split at found
      · rename_i same
        obtain ⟨old, known, rfl⟩ := map_eq_some_iff.mp found
        exact (E.keyed _ old known).trans (Std.LawfulEqCmp.eq_of_compare same)
      · exact E.keyed key c found }

def cancelContract (id : String) : ContractEngine × Except ContractError Unit :=
  match E.getContract id with
  | none => (E, .error (.notFound id))
  | some _ => (E.setStatus id .cancelled, .ok ())

def pauseContract (id : String) : ContractEngine × Except ContractError Unit :=
  match E.getContract id with
  | none => (E, .error (.notFound id))
  | some c =>
    if !c.isActive then (E, .error (.inactive id)) else (E.setStatus id .paused, .ok ())

/-- Only a paused contract is resumed; on any other the call does nothing. -/
def resumeContract (id : String) : ContractEngine × Except ContractError Unit :=
  match E.getContract id with
  | none => (E, .error (.notFound id))
  | some c => if c.status == .paused then (E.setStatus id .active, .ok ()) else (E, .ok ())

def evaluateSupplyOffer (X : Externals) (J : OfferJson) (clock : String → Nat) (E : ContractEngine)
    (offer : SupplyOffer) (offerTxId : String) : ContractEngine × List EngineEvent :=
  ({ E with
      contracts := E.contracts.map fun _ c =>
        (c.evaluate X J E.executor clock offer offerTxId).1
      keyed := by
        intro id c found
        rw [getElem?_map, map_eq_some_iff] at found
        obtain ⟨old, known, rfl⟩ := found
        exact (congrArg SmartContractDef.contractId
          (Contract.evaluate_definition X J E.executor clock offer offerTxId old)).trans
          (E.keyed id old known) },
    E.contracts.toList.flatMap fun entry =>
      (entry.2.evaluate X J E.executor clock offer offerTxId).2)

/-- The first pass of the rebuild, on one transaction. -/
def loadCreation (tx : Transaction) : ContractEngine :=
  match tx.kind with
  | .contractCreation definition => E.loadFromLedger definition
  | _ => E

def replayExecution (tx : Transaction) : ContractEngine :=
  match tx.kind with
  | .contractExecution execution =>
    { E with
      contracts := E.contracts.modify execution.contractId fun c => c.book execution.quantity
      keyed := by
        intro id c found
        rw [getElem?_modify] at found
        split at found
        · rename_i same
          obtain ⟨old, known, rfl⟩ := map_eq_some_iff.mp found
          exact (E.keyed _ old known).trans (Std.LawfulEqCmp.eq_of_compare same)
        · exact E.keyed id c found }
  | _ => E

def rebuildFromChain (chain : List Block) : ContractEngine :=
  let txs := chain.flatMap Block.transactions
  txs.foldl replayExecution (txs.foldl loadCreation new)

variable {X : Externals} {J : OfferJson} {clock : String → Nat} {E : ContractEngine}
  {offer : SupplyOffer} {offerTxId id : String}

lemma getContract_loadFromLedger (definition : SmartContractDef) (id : String) :
    (E.loadFromLedger definition).getContract id =
      (E.getContract id).or (if definition.contractId = id then some (.new definition) else none) := by
  unfold loadFromLedger getContract
  split
  · rename_i present
    by_cases same : definition.contractId = id
    · subst same
      rw [contains_eq_isSome_getElem?, isSome_iff_exists] at present
      obtain ⟨c, found⟩ := present
      simp [found]
    · simp [same]
  · rename_i absent
    simp only [getElem?_insert, Std.compare_eq_iff_eq]
    by_cases same : definition.contractId = id
    · subst same
      rw [contains_eq_isSome_getElem?, not_isSome_iff_eq_none] at absent
      simp [absent]
    · simp [same]

lemma getContract_setStatus (target : String) (status : ContractStatus) (id : String) :
    (E.setStatus target status).getContract id =
      if target = id then (E.getContract id).map fun c => { c with status := status }
      else E.getContract id := by
  simp only [setStatus, getContract, getElem?_modify, Std.compare_eq_iff_eq]
  split
  · rename_i same
    rw [same]
  · rfl

lemma registerContract_fst (definition : SmartContractDef) :
    (E.registerContract definition).1 = E.loadFromLedger definition := by
  unfold registerContract loadFromLedger
  split <;> rfl

lemma getContract_evaluateSupplyOffer (offer : SupplyOffer) (offerTxId id : String) :
    (E.evaluateSupplyOffer X J clock offer offerTxId).1.getContract id =
      (E.getContract id).map fun c => (c.evaluate X J E.executor clock offer offerTxId).1 :=
  getElem?_map

@[simp]
lemma executor_loadFromLedger (definition : SmartContractDef) :
    (E.loadFromLedger definition).executor = E.executor := by
  unfold loadFromLedger
  split <;> rfl

lemma mem_evaluateSupplyOffer {event : EngineEvent} :
    event ∈ (E.evaluateSupplyOffer X J clock offer offerTxId).2 ↔ ∃ id c,
      E.getContract id = some c ∧ event ∈ (c.evaluate X J E.executor clock offer offerTxId).2 := by
  simp [evaluateSupplyOffer, getContract, mem_toList_iff_getElem?_eq_some]

end ContractEngine

def executionsOf (contractId : String) (txs : List Transaction) : List ContractExecution :=
  txs.filterMap fun tx => match tx.kind with
    | .contractExecution execution =>
      if execution.contractId = contractId then some execution else none
    | _ => none

@[simp]
lemma executionsOf_nil (contractId : String) : executionsOf contractId [] = [] := rfl

@[simp]
lemma executionsOf_append (contractId : String) (a b : List Transaction) :
    executionsOf contractId (a ++ b) = executionsOf contractId a ++ executionsOf contractId b :=
  List.filterMap_append

namespace Contract

variable {X : Externals} {J : OfferJson} {executor : Option ExecutionProvider}
  {clock : String → Nat} {offer : SupplyOffer} {offerTxId : String} {c : Contract}
  {plan : PurchasePlan}

/-- What a plan orders: an order, and an execution of the contract, of one quantity that the budget
covers. -/
structure Plans (c : Contract) (offer : SupplyOffer) (offerTxId : String) (plan : PurchasePlan) :
    Prop where
  quantity : plan.quantity = c.orderedQuantity offer
  within : plan.quantity ≤ c.remaining
  order : ∃ order, plan.purchaseOrder.kind = .purchaseOrder order
  orderId : plan.purchaseOrder.id = purchaseOrderTxId c.id offerTxId
  execution : ∃ execution, plan.execution.kind = .contractExecution execution ∧
    execution.contractId = c.id ∧ execution.quantity = plan.quantity
  executionId : plan.execution.id = executionTxId c.id offerTxId
  carriers : plan.purchaseOrder.endorsements = [] ∧ plan.execution.endorsements = []

lemma plans_of_preparePurchase (prepared : c.preparePurchase clock offer offerTxId = some plan) :
    c.Plans offer offerTxId plan := by
  unfold preparePurchase at prepared
  split at prepared
  · cases prepared
  · cases prepared
    refine ⟨rfl, ?_, ⟨_, rfl⟩, rfl, ⟨_, rfl, rfl, rfl⟩, rfl, rfl, rfl⟩
    simp only [orderedQuantity]
    omega

def orderFor (c : Contract) (offer : SupplyOffer) : PurchaseOrder where
  productId := offer.productId
  buyerId := c.definition.buyerId
  sellerId := offer.sellerId
  quantity := c.orderedQuantity offer
  agreedPricePerUnit := offer.pricePerUnit
  currency := offer.currency
  contractId := some c.id

def executionFor (c : Contract) (offer : SupplyOffer) (offerTxId : String) : ContractExecution where
  contractId := c.id
  purchaseOrderTxId := purchaseOrderTxId c.id offerTxId
  buyerId := c.definition.buyerId
  sellerId := offer.sellerId
  productId := offer.productId
  quantity := c.orderedQuantity offer
  totalPrice := min (c.orderedQuantity offer * offer.pricePerUnit) u64Max
  currency := offer.currency

def generated (clock : String → Nat) (c : Contract) (offer : SupplyOffer) (offerTxId : String) :
    List Transaction :=
  [.withId clock (purchaseOrderTxId c.id offerTxId) (.purchaseOrder (c.orderFor offer)),
    .withId clock (executionTxId c.id offerTxId)
      (.contractExecution (c.executionFor offer offerTxId))]

lemma generated_of_preparePurchase
    (prepared : c.preparePurchase clock offer offerTxId = some plan) :
    [plan.purchaseOrder, plan.execution] = c.generated clock offer offerTxId := by
  unfold preparePurchase at prepared
  split at prepared
  · cases prepared
  · cases prepared
    rfl

/-- The executions a purchase adds for its contract. -/
theorem Plans.executionsOf (plans : c.Plans offer offerTxId plan) :
    ∃ execution : ContractExecution, execution.quantity = plan.quantity ∧
      GlassChain.executionsOf c.id [plan.purchaseOrder, plan.execution] = [execution] := by
  obtain ⟨order, isOrder⟩ := plans.order
  obtain ⟨execution, isExecution, own, quantity⟩ := plans.execution
  exact ⟨execution, quantity, by simp [GlassChain.executionsOf, isOrder, isExecution, own]⟩

variable (X J executor clock offer offerTxId c)

lemma purchases_evaluate_generated :
    purchases (c.evaluate X J executor clock offer offerTxId).2 = [] ∨ c.takes offer = true ∧
      purchases (c.evaluate X J executor clock offer offerTxId).2 =
        c.generated clock offer offerTxId := by
  rcases evaluate_cases X J executor clock offer offerTxId c with
    ⟨-, none⟩ | ⟨-, -, none⟩ | ⟨plan, takes, prepared, -, bought⟩
  · exact .inl none
  · exact .inl none
  · refine .inr ⟨takes, ?_⟩
    rw [bought, purchases_append, gate_purchases, ← generated_of_preparePurchase prepared]
    rfl

/-- An evaluation buys nothing, or by one plan. -/
lemma purchases_evaluate :
    purchases (c.evaluate X J executor clock offer offerTxId).2 = [] ∨
      c.takes offer = true ∧ ∃ plan, c.Plans offer offerTxId plan ∧
        purchases (c.evaluate X J executor clock offer offerTxId).2 =
          [plan.purchaseOrder, plan.execution] := by
  rcases evaluate_cases X J executor clock offer offerTxId c with
    ⟨-, none⟩ | ⟨-, -, none⟩ | ⟨plan, takes, prepared, -, bought⟩
  · exact .inl none
  · exact .inl none
  · refine .inr ⟨takes, plan, plans_of_preparePurchase prepared, ?_⟩
    rw [bought, purchases_append, gate_purchases]
    rfl

end Contract

def Transaction.contractRef (tx : Transaction) : Option String :=
  match tx.kind with
  | .purchaseOrder order => order.contractId
  | .contractExecution execution => some execution.contractId
  | _ => none

/-- A contract only generates transactions of its own. -/
theorem Contract.contractRef_of_mem {X : Externals} {J : OfferJson}
    {executor : Option ExecutionProvider} {clock : String → Nat} {offer : SupplyOffer}
    {offerTxId : String} {c : Contract} {tx : Transaction}
    (member : tx ∈ purchases (c.evaluate X J executor clock offer offerTxId).2) :
    tx.contractRef = some c.id := by
  rcases purchases_evaluate_generated X J executor clock offer offerTxId c with none | ⟨-, bought⟩
  · rw [none] at member
    cases member
  · rw [bought] at member
    rcases List.mem_pair.mp member with rfl | rfl <;> rfl

namespace ContractEngine

variable {X : Externals} {J : OfferJson} {clock : String → Nat}

/-- Among the transactions an evaluation generates, those of a contract are those its own iteration
generated. -/
theorem filterMap_evaluateSupplyOffer {α : Type} (E : ContractEngine) (offer : SupplyOffer)
    (offerTxId : String) {id : String} {f : Transaction → Option α}
    (own : ∀ tx, f tx ≠ none → tx.contractRef = some id) :
    (purchases (E.evaluateSupplyOffer X J clock offer offerTxId).2).filterMap f =
      match E.getContract id with
      | some c => (purchases (c.evaluate X J E.executor clock offer offerTxId).2).filterMap f
      | none => [] := by
  let each (entry : String × Contract) : List α :=
    (purchases (entry.2.evaluate X J E.executor clock offer offerTxId).2).filterMap f
  have split (entries : List (String × Contract)) :
      (purchases (entries.flatMap fun entry =>
        (entry.2.evaluate X J E.executor clock offer offerTxId).2)).filterMap f =
          entries.flatMap each := by
    induction entries with
    | nil => rfl
    | cons entry entries ih => simp [ih, each]
  have quiet (key : String) (c : Contract) (found : E.contracts[key]? = some c)
      (other : key ≠ id) : each (key, c) = [] := by
    refine List.filterMap_eq_nil_iff.mpr fun tx member => ?_
    by_contra kept
    have ref := Contract.contractRef_of_mem member
    rw [own tx kept, E.keyed key c found, some.injEq] at ref
    exact other ref.symm
  rw [evaluateSupplyOffer, split, Library.flatMap_off_key id quiet, getContract]
  cases E.contracts[id]? <;> rfl

lemma executionsOf_evaluateSupplyOffer (E : ContractEngine) (offer : SupplyOffer)
    (offerTxId id : String) :
    executionsOf id (purchases (E.evaluateSupplyOffer X J clock offer offerTxId).2) =
      match E.getContract id with
      | some c => executionsOf id (purchases (c.evaluate X J E.executor clock offer offerTxId).2)
      | none => [] := by
  refine E.filterMap_evaluateSupplyOffer offer offerTxId fun tx kept => ?_
  simp only [Transaction.contractRef]
  split at kept <;> simp_all

end ContractEngine

end GlassChain
