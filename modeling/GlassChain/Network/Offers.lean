import GlassChain.Contracts.Rebuild
import GlassChain.Network.Submission

/-!
# Is an offer consumed once?

The engine books a purchase on every delivery of an offer, while the ledger keeps the first
execution of an identifier. The two agree as long as no delivery generates an execution whose
identifier is known already: the identifier is made of the contract's and the offer's, so a repeated
offer, or another pair with the same spelling, generates it again.
-/

namespace GlassChain

open Library List ContractEngine Std.TreeMap Ledger CapabilityHistory ContractExecution

structure TradeState where
  node : IntakeState
  inFlight : List Ledger.Prepared

def TradeState.known (s : TradeState) : List Transaction :=
  chainTxs s.node.ledger.chain ++ s.inFlight.flatMap Ledger.Prepared.transactions ++
    s.node.ledger.pendingTransactions

inductive TradeInput where
  | submit (clock : String → Nat) (tx : Transaction)
  | peer (clock : String → Nat) (sender : Option String) (tx : Transaction)
  | prepare
  /-- The miner of the slice at this position commits its block. -/
  | commit (position : Nat) (block : Block)
  /-- A gate refuses the candidate of the slice at this position. -/
  | restore (position : Nat)
  /-- The miner of the slice at this position returns with an error and keeps nothing. -/
  | lose (position : Nat)

def TradeInput.next (X : Externals) (J : OfferJson) (s : TradeState) :
    TradeInput → Option TradeState
  | .submit clock tx => some { s with node := (s.node.submitTransaction X J clock tx).1 }
  | .peer clock sender tx => some { s with node := s.node.peerTransaction X J clock sender tx }
  | .prepare => match s.node.ledger.prepareMining with
    | (L, .error _) => some { s with node := { s.node with ledger := L } }
    | (L, .ok p) => some ⟨{ s.node with ledger := L }, p :: s.inFlight⟩
  | .commit position block => s.inFlight[position]?.map fun p =>
      ⟨{ s.node with ledger := (s.node.ledger.commitMinedBlock X block p.previousHash).1 },
        s.inFlight.eraseIdx position⟩
  | .restore position => s.inFlight[position]?.map fun p =>
      ⟨{ s.node with ledger := s.node.ledger.restorePending p.transactions },
        s.inFlight.eraseIdx position⟩
  | .lose position => some { s with inFlight := s.inFlight.eraseIdx position }

/-- A supply offer, or the creation of a contract whose budget is a `u64`. -/
def Transaction.Delivered (tx : Transaction) : Prop :=
  match tx.kind with
  | .supplyOffer _ => True
  | .contractCreation definition => definition.conditions.maxQuantity < 2 ^ 64
  | _ => False

/-- Offers and creations are delivered, and a miner commits what it drained. -/
def TradeInput.Trades (s : TradeState) : TradeInput → Prop
  | .submit _ tx | .peer _ _ tx => tx.Delivered
  | .commit position block => ∀ p, s.inFlight[position]? = some p →
      block.transactions = p.transactions
  | _ => True

def TradeInput.Step (X : Externals) (J : OfferJson) (s : TradeState) (input : TradeInput)
    (t : TradeState) : Prop :=
  input.next X J s = some t ∧ input.Trades s ∧
    t.node.ledger.pendingTransactions.length < maxPendingTransactions

/-- The delivery can generate no execution whose identifier is known, and is not known as an
execution itself. -/
def Unseen (E : ContractEngine) (known : List Transaction) (tx : Transaction) : Prop :=
  (∀ t ∈ known, t.isExecution = true → t.id ≠ tx.id) ∧
    ∀ offer, tx.kind = .supplyOffer offer → ∀ id c, E.getContract id = some c →
      c.takes offer = true → executionTxId id tx.id ∉ txIds known

/-- Deliveries are unseen, commits append or hand back, and no slice is lost. -/
def TradeInput.Once (X : Externals) (s : TradeState) : TradeInput → Prop
  | .submit _ tx | .peer _ _ tx => Unseen s.node.engine s.known tx
  | .commit position block => ∀ p, s.inFlight[position]? = some p →
      CommitsOrRestores X s.node.ledger block p.previousHash
  | .lose _ => False
  | _ => True

def distinctExecutions (contractId : String) (txs : List Transaction) : List ContractExecution :=
  executionsOf contractId ((txs.filter Transaction.isExecution).pwFilter fun a b => a.id ≠ b.id)

/-- For one offer the identifier tells the contract; for different offers it need not. -/
theorem executionTxId_injective {a b offerTxId : String}
    (same : executionTxId a offerTxId = executionTxId b offerTxId) : a = b := by
  have lists := congrArg String.toList same
  simpa [toList_executionTxId, String.ext_iff] using lists

lemma executionTxId_ne_offer (contractId offerTxId : String) :
    executionTxId contractId offerTxId ≠ offerTxId := by
  intro same
  have lengths := congrArg (fun s => s.toList.length) same
  simp only [toList_executionTxId, length_append, length_cons] at lengths
  omega

lemma executionTxId_ne_empty (a b : String) : executionTxId a b ≠ "" := by
  intro same
  have lists := congrArg String.toList same
  simp [toList_executionTxId] at lists

example : executionTxId "a-b" "c" = executionTxId "a" "b-c" := by decide

/-- The kinds that occur in these runs; none of them changes the capability history. -/
def Transaction.isTrade (tx : Transaction) : Bool :=
  match tx.kind with
  | .supplyOffer _ | .purchaseOrder _ | .contractCreation _ | .contractExecution _ => true
  | _ => false

def Apart (a b : Transaction) : Prop :=
  a.isExecution = true ∨ b.isExecution = true → a.id ≠ b.id

lemma Apart.symm {a b : Transaction} (apart : Apart a b) : Apart b a :=
  fun either => (apart either.symm).symm

lemma Transaction.Delivered.isTrade {tx : Transaction} (delivered : tx.Delivered) :
    tx.isTrade = true ∧ tx.isExecution = false := by
  unfold Delivered at delivered
  unfold Transaction.isTrade Transaction.isExecution
  cases kind : tx.kind <;> simp_all

section Generated

variable {X : Externals} {J : OfferJson} {clock : String → Nat} {E : ContractEngine}
  {offer : SupplyOffer} {offerTxId : String} {c : Contract}

lemma Contract.Plans.isExecution {plan : PurchasePlan} (plans : c.Plans offer offerTxId plan) :
    plan.purchaseOrder.isExecution = false ∧ plan.execution.isExecution = true := by
  obtain ⟨order, isOrder⟩ := plans.order
  obtain ⟨execution, isExecution, -⟩ := plans.execution
  simp [Transaction.isExecution, isOrder, isExecution]

lemma Contract.Plans.isTrade {plan : PurchasePlan} (plans : c.Plans offer offerTxId plan) :
    plan.purchaseOrder.isTrade = true ∧ plan.execution.isTrade = true := by
  obtain ⟨order, isOrder⟩ := plans.order
  obtain ⟨execution, isExecution, -⟩ := plans.execution
  simp [Transaction.isTrade, isOrder, isExecution]

lemma purchases_flatMap {α : Type} (entries : List α) (f : α → List EngineEvent) :
    purchases (entries.flatMap f) = entries.flatMap fun entry => purchases (f entry) := by
  induction entries with
  | nil => rfl
  | cons entry entries ih => simp [ih]

/-- A generated transaction: the order or the execution of a contract that takes the offer. -/
structure Generated (E : ContractEngine) (offer : SupplyOffer) (offerTxId : String)
    (tx : Transaction) : Prop where
  trade : tx.isTrade = true
  execution : tx.isExecution = true → ∃ id c, E.getContract id = some c ∧
    c.takes offer = true ∧ tx.id = executionTxId id offerTxId
  order : tx.isExecution = false → ∃ id, tx.id = purchaseOrderTxId id offerTxId

lemma generated_of_mem {tx : Transaction}
    (member : tx ∈ purchases (E.evaluateSupplyOffer X J clock offer offerTxId).2) :
    Generated E offer offerTxId tx := by
  rw [evaluateSupplyOffer, purchases_flatMap] at member
  obtain ⟨⟨id, c⟩, entry, own⟩ := mem_flatMap.mp member
  have found : E.getContract id = some c := mem_toList_iff_getElem?_eq_some.mp entry
  obtain rfl := E.keyed id c found
  rcases c.purchases_evaluate X J E.executor clock offer offerTxId with
    none | ⟨takes, plan, plans, bought⟩
  · simp [none] at own
  · have either : tx = plan.purchaseOrder ∨ tx = plan.execution := by simpa [bought] using own
    obtain ⟨isOrder, isExecution⟩ := plans.isExecution
    rcases either with rfl | rfl
    · exact ⟨plans.isTrade.1, by simp [isOrder], fun _ => ⟨_, plans.orderId⟩⟩
    · exact ⟨plans.isTrade.2, fun _ => ⟨_, c, found, takes, plans.executionId⟩,
        by simp [isExecution]⟩

lemma purchases_apart :
    (purchases (E.evaluateSupplyOffer X J clock offer offerTxId).2).Pairwise Apart := by
  rw [evaluateSupplyOffer, purchases_flatMap, pairwise_flatMap]
  constructor
  · rintro ⟨id, c⟩ -
    rcases c.purchases_evaluate X J E.executor clock offer offerTxId with
      none | ⟨-, plan, plans, bought⟩
    · simp [none]
    · have differ : Apart plan.purchaseOrder plan.execution := by
        intro _
        rw [plans.orderId, plans.executionId]
        exact (executionTxId_ne_order _ _ _ _).symm
      simp [bought, differ]
  · refine (distinct_keys_toList (t := E.contracts)).imp_of_mem ?_
    rintro ⟨id, c⟩ ⟨id', c'⟩ first second differ tx own tx' own'
    obtain rfl := E.keyed id c (mem_toList_iff_getElem?_eq_some.mp first)
    obtain rfl := E.keyed id' c' (mem_toList_iff_getElem?_eq_some.mp second)
    rcases c.purchases_evaluate X J E.executor clock offer offerTxId with
      none | ⟨-, plan, plans, bought⟩
    · simp [none] at own
    rcases c'.purchases_evaluate X J E.executor clock offer offerTxId with
      none | ⟨-, plan', plans', bought'⟩
    · simp [none] at own'
    have either : tx = plan.purchaseOrder ∨ tx = plan.execution := by simpa [bought] using own
    have either' : tx' = plan'.purchaseOrder ∨ tx' = plan'.execution := by
      simpa [bought'] using own'
    intro executes
    rcases either with rfl | rfl <;> rcases either' with rfl | rfl
    · simp [plans.isExecution, plans'.isExecution] at executes
    · rw [plans.orderId, plans'.executionId]
      exact (executionTxId_ne_order _ _ _ _).symm
    · rw [plans.executionId, plans'.orderId]
      exact executionTxId_ne_order _ _ _ _
    · rw [plans.executionId, plans'.executionId]
      intro same
      exact differ (by simp [executionTxId_injective same])

end Generated

/-- The engine's counters and the transactions the node has, in any order. -/
structure Accounts (E : ContractEngine) (known : List Transaction) : Prop where
  trades : ∀ tx ∈ known, tx.isTrade = true
  form : ∀ tx ∈ known, tx.isExecution = true → ∃ c o, tx.id = executionTxId c o
  apart : known.Pairwise Apart
  booked : ∀ id c, E.getContract id = some c → c.definition.conditions.maxQuantity < 2 ^ 64 ∧
    Booked c c.definition (executionsOf id known)
  absent : ∀ id, E.getContract id = none → executionsOf id known = []

lemma Booked.perm {c : Contract} {d : SmartContractDef} {a b : List ContractExecution}
    (booked : Booked c d a) (perm : a.Perm b) : Booked c d b :=
  ⟨booked.definition, booked.quantity.trans (perm.map _).sum_eq,
    booked.count.trans (by rw [perm.length_eq]), booked.within, booked.closed⟩

namespace Accounts

variable {E : ContractEngine} {known more : List Transaction}

lemma perm (accounts : Accounts E known) (perm : known.Perm more) : Accounts E more := by
  have executions (id : String) : (executionsOf id known).Perm (executionsOf id more) :=
    perm.filterMap _
  refine ⟨fun tx member => accounts.trades tx (perm.mem_iff.mpr member),
    fun tx member => accounts.form tx (perm.mem_iff.mpr member),
    (perm.pairwise_iff Apart.symm).mp accounts.apart, fun id c found => ?_, fun id none => ?_⟩
  · obtain ⟨range, booked⟩ := accounts.booked id c found
    exact ⟨range, booked.perm (executions id)⟩
  · have before := executions id
    rw [accounts.absent id none] at before
    exact before.nil_eq.symm

lemma executionsOf_of_filter {txs : List Transaction} (id : String)
    (same : known.filter Transaction.isExecution = txs.filter Transaction.isExecution) :
    executionsOf id known = executionsOf id txs := by
  rw [← executionsOf_filter id known, ← executionsOf_filter id txs, same]

/-- Other transactions than executions may be dropped. -/
theorem sublist (accounts : Accounts E known) (fewer : more.Sublist known)
    (executions : more.filter Transaction.isExecution = known.filter Transaction.isExecution) :
    Accounts E more := by
  refine ⟨fun tx member => accounts.trades tx (fewer.mem member),
    fun tx member => accounts.form tx (fewer.mem member), accounts.apart.sublist fewer,
    fun id c found => ?_, fun id none => ?_⟩
  · rw [executionsOf_of_filter id executions]
    exact accounts.booked id c found
  · rw [executionsOf_of_filter id executions]
    exact accounts.absent id none

/-- The counters are the sums over the distinct executions. -/
theorem quantity (accounts : Accounts E known) {id : String} {c : Contract}
    (found : E.getContract id = some c) :
    c.quantityPurchased = ((distinctExecutions id known).map ContractExecution.quantity).sum := by
  have distinct : (known.filter Transaction.isExecution).Pairwise fun a b => a.id ≠ b.id := by
    refine (accounts.apart.sublist filter_sublist).imp_of_mem ?_
    intro a b member _ apart
    exact apart (.inl (mem_filter.mp member).2)
  rw [distinctExecutions, pwFilter_eq_self.mpr distinct, executionsOf_filter]
  exact (accounts.booked id c found).2.quantity

end Accounts

section Delivery

variable {X : Externals} {J : OfferJson} {clock : String → Nat} {E : ContractEngine}
  {known added : List Transaction} {tx : Transaction}

def delivery (X : Externals) (J : OfferJson) (clock : String → Nat) (E : ContractEngine)
    (tx : Transaction) : List Transaction :=
  tx :: purchases (E.onPeer X J clock tx).2

lemma mem_delivery {t : Transaction} (member : t ∈ delivery X J clock E tx) :
    t = tx ∨ ∃ offer, tx.kind = .supplyOffer offer ∧ Generated E offer tx.id t := by
  rcases mem_cons.mp member with rfl | own
  · exact .inl rfl
  · unfold onPeer at own
    split at own
    · exact .inr ⟨_, by assumption, generated_of_mem own⟩
    · simp at own
    · simp at own

lemma delivery_apart (delivered : tx.Delivered) : (delivery X J clock E tx).Pairwise Apart := by
  refine pairwise_cons.mpr ⟨fun t own executes => ?_, ?_⟩
  · rcases mem_delivery (mem_cons_of_mem tx own) with rfl | ⟨offer, -, generated⟩
    · simp [delivered.isTrade.2] at executes
    · have execution : t.isExecution = true := by simpa [delivered.isTrade.2] using executes
      obtain ⟨id, -, -, -, named⟩ := generated.execution execution
      rw [named]
      exact (executionTxId_ne_offer _ _).symm
  · unfold onPeer
    split
    · exact purchases_apart
    · exact List.Pairwise.nil
    · exact List.Pairwise.nil

/-- Nothing delivered clashes with an execution the node has, nor the other way round. -/
theorem Accounts.apart_delivery (accounts : Accounts E known) (X : Externals) (J : OfferJson)
    (clock : String → Nat) (delivered : tx.Delivered) (unseen : Unseen E known tx) :
    ∀ a ∈ known, ∀ t ∈ delivery X J clock E tx, Apart a t := by
  intro a old t member executes
  rcases mem_delivery member with rfl | ⟨offer, kind, generated⟩
  · exact unseen.1 a old (by simpa [delivered.isTrade.2] using executes)
  · cases execution : t.isExecution with
    | true =>
      obtain ⟨id, c, found, takes, named⟩ := generated.execution execution
      intro same
      apply unseen.2 offer kind id c found takes
      rw [← named, ← same]
      exact mem_map_of_mem old
    | false =>
      obtain ⟨id, named⟩ := generated.order execution
      obtain ⟨c, o, form⟩ := accounts.form a old (by simpa [execution] using executes)
      rw [named, form]
      exact executionTxId_ne_order _ _ _ _

/-- The engine books what it generates for a delivery. -/
theorem Accounts.books_delivery (accounts : Accounts E known) (X : Externals) (J : OfferJson)
    (clock : String → Nat) (delivered : tx.Delivered) (id : String) :
    match (E.onPeer X J clock tx).1.getContract id with
    | some c => c.definition.conditions.maxQuantity < 2 ^ 64 ∧ Booked c c.definition
        (executionsOf id known ++ executionsOf id (purchases (E.onPeer X J clock tx).2))
    | none =>
      executionsOf id known ++ executionsOf id (purchases (E.onPeer X J clock tx).2) = [] := by
  have absent := accounts.absent id
  have booked := accounts.booked id
  unfold onPeer
  cases kind : tx.kind <;> simp only [Transaction.Delivered, kind] at delivered
  case supplyOffer offer =>
    simp only [getContract_evaluateSupplyOffer, executionsOf_evaluateSupplyOffer]
    cases found : E.getContract id with
    | none => simp [absent found]
    | some c =>
      obtain ⟨range, books⟩ := booked c found
      obtain rfl := E.keyed id c found
      simp only [Option.map_some, Contract.evaluate_definition]
      exact ⟨range, books.evaluate range X J E.executor clock offer tx.id⟩
  case contractCreation definition =>
    simp only [getContract_loadFromLedger, purchases_nil, executionsOf_nil, append_nil]
    cases found : E.getContract id with
    | some c => exact booked c found
    | none =>
      rw [absent found]
      by_cases own : definition.contractId = id
      · simpa [own] using ⟨delivered, Booked.new definition⟩
      · simp [own]

/-- The engine after a delivery, and what the ledger kept of it: all executions, and any others. -/
theorem Accounts.deliver (accounts : Accounts E known) (delivered : tx.Delivered)
    (unseen : Unseen E known tx) (kept : added.Sublist (delivery X J clock E tx))
    (executions : added.filter Transaction.isExecution =
      (delivery X J clock E tx).filter Transaction.isExecution) :
    Accounts (E.onPeer X J clock tx).1 (known ++ added) := by
  have own (id : String) : executionsOf id (known ++ added) =
      executionsOf id known ++ executionsOf id (purchases (E.onPeer X J clock tx).2) := by
    rw [executionsOf_append, executionsOf_of_filter id executions, delivery,
      ← executionsOf_filter id (tx :: _), filter_cons_of_neg (by simp [delivered.isTrade.2]),
      executionsOf_filter]
  refine ⟨?_, ?_, ?_, fun id c found => ?_, fun id none => ?_⟩
  · intro t member
    rcases mem_append.mp member with old | new
    · exact accounts.trades t old
    · rcases mem_delivery (kept.mem new) with rfl | ⟨offer, -, generated⟩
      · exact delivered.isTrade.1
      · exact generated.trade
  · intro t member executes
    rcases mem_append.mp member with old | new
    · exact accounts.form t old executes
    · rcases mem_delivery (kept.mem new) with rfl | ⟨offer, -, generated⟩
      · simp [delivered.isTrade.2] at executes
      · obtain ⟨id, -, -, -, named⟩ := generated.execution executes
        exact ⟨id, _, named⟩
  · refine pairwise_append.mpr ⟨accounts.apart, (delivery_apart delivered).sublist kept, ?_⟩
    intro a old t new
    exact accounts.apart_delivery X J clock delivered unseen a old t (kept.mem new)
  · have books := accounts.books_delivery X J clock delivered id
    rw [found] at books
    rw [own]
    exact books
  · have books := accounts.books_delivery X J clock delivered id
    rw [none] at books
    rw [own]
    exact books

end Delivery

/-- The chain holds trades only, and the id index covers it. -/
structure Ready (L : Ledger) : Prop where
  trades : ∀ tx ∈ chainTxs L.chain, tx.isTrade = true
  ids : IdsInv L
  caughtUp : IdsCaughtUp L

/-- The ledger after some transactions were offered to its pool: it took all executions, and any
others. -/
structure Queued (L : Ledger) (txs : List Transaction) (L' : Ledger) : Prop where
  ready : Ready L'
  chain : L'.chain = L.chain
  pool : ∃ added, L'.pendingTransactions = L.pendingTransactions ++ added ∧ added.Sublist txs ∧
    added.filter Transaction.isExecution = txs.filter Transaction.isExecution

section Queue

variable {X : Externals} {L : Ledger} {tx : Transaction} {txs : List Transaction}

lemma validateBlock_trades {h : CapabilityHistory} {b : Block}
    (trades : ∀ tx ∈ b.transactions, tx.isTrade = true) :
    validateBlock X h b = (h, .ok ()) := by
  unfold validateBlock
  generalize effectiveSet X h b.index = set
  generalize b.transactions = txs at trades
  induction txs with
  | nil => rfl
  | cons tx txs ih =>
    have quiet : validateTransaction X set b.index h tx = (h, .ok ()) := by
      have trade := trades tx mem_cons_self
      unfold Transaction.isTrade at trade
      unfold validateTransaction
      cases kind : tx.kind <;> simp_all
    rw [runInPlace_cons_ok quiet]
    exact ih fun t member => trades t (mem_cons_of_mem _ member)

lemma Ready.foldCapability_ok (ready : Ready L) : (L.foldCapability X).2 = .ok () := by
  have folds (blocks : List Block) (s : CapabilityHistory × Nat)
      (trades : ∀ b ∈ blocks, ∀ tx ∈ b.transactions, tx.isTrade = true) :
      (runInPlace (Ledger.foldBlock X) s blocks).2 = .ok () := by
    induction blocks generalizing s with
    | nil => rfl
    | cons b blocks ih =>
      have folded : Ledger.foldBlock X s b = ((s.1, s.2 + 1), .ok ()) := by
        rw [foldBlock, validateBlock_trades (trades b mem_cons_self)]
      rw [runInPlace_cons_ok folded]
      exact ih _ fun b member => trades b (mem_cons_of_mem _ member)
  unfold foldCapability
  split
  · rfl
  · refine folds _ _ fun b member tx own => ready.trades tx ?_
    exact mem_flatMap.mpr ⟨b, mem_of_mem_drop member, own⟩

/-- One transaction was offered: it is in the pool now, or it is no execution. -/
theorem Queued.of_cases {L' : Ledger} (ready : Ready L') (chain : L'.chain = L.chain)
    (pool : L'.pendingTransactions = L.pendingTransactions ++ [tx] ∨
      L'.pendingTransactions = L.pendingTransactions ∧ tx.isExecution = false) :
    Queued L [tx] L' := by
  refine ⟨ready, chain, ?_⟩
  rcases pool with taken | ⟨left, noExecution⟩
  · exact ⟨[tx], taken, .refl _, rfl⟩
  · exact ⟨[], by simp [left], nil_sublist _, by simp [noExecution]⟩

section

variable (ready : Ready L)

include ready

lemma Ready.with_history (h : Option CapabilityHistory) (n : Nat) :
    Ready { L with capabilityHistory := h, historyLen := n } :=
  ⟨ready.trades, ready.ids, ready.caughtUp⟩

lemma Ready.with_pending (pool : List Transaction) : Ready { L with pendingTransactions := pool } :=
  ⟨ready.trades, ready.ids, ready.caughtUp⟩

lemma Ready.foldCommittedIds : Ready L.foldCommittedIds :=
  ⟨by simpa using ready.trades, ready.ids.foldCommittedIds,
    .inr (by simpa using ready.ids.foldCommittedIds_eq.1)⟩

lemma Ready.pushCommitted {block : Block} (trades : ∀ tx ∈ block.transactions, tx.isTrade = true) :
    Ready (L.pushCommitted block) := by
  refine ⟨fun tx member => ?_, ready.ids.pushCommitted ready.caughtUp, ?_⟩
  · obtain ⟨b, inChain, own⟩ := mem_flatMap.mp member
    rcases mem_append.mp inChain with before | last
    · exact ready.trades tx (mem_flatMap.mpr ⟨b, before, own⟩)
    · rw [mem_singleton.mp last] at own
      exact trades tx own
  · cases present : L.committedIds with
    | none => exact .inl (by simp [Ledger.pushCommitted, present])
    | some ids => exact .inr (by simp [Ledger.pushCommitted, present])

lemma Ready.known_of_isCommitted {id : String} (known : L.isCommitted id = true) :
    id ∈ chainIds L.chain := by
  obtain ⟨ids, present, member⟩ : ∃ ids, L.committedIds = some ids ∧ id ∈ ids := by
    simpa [isCommitted, Option.any_eq_true] using known
  obtain ⟨-, rfl⟩ := ready.ids ids present
  rcases ready.caughtUp with absent | covers
  · simp [absent] at present
  · simpa [covers] using member

/-- A trade is queued unless its identifier is empty or known. -/
theorem Ready.addTransaction (trade : tx.isTrade = true)
    (room : L.pendingTransactions.length < maxPendingTransactions)
    (fresh : tx.isExecution = true → tx.id ≠ "" ∧ tx.id ∉ chainIds L.chain ∧
      tx.id ∉ txIds L.pendingTransactions) :
    Queued L [tx] (L.addTransaction X tx).1 := by
  unfold Ledger.addTransaction
  split
  · next empty =>
    refine .of_cases ready rfl (.inr ⟨rfl, ?_⟩)
    by_contra execution
    exact (fresh (by simpa using execution)).1 empty
  obtain ⟨h, n, frame⟩ := foldCapability_frame X L
  rcases folded : L.foldCapability X with ⟨F, e | ⟨⟩⟩
  · have ok := ready.foldCapability_ok (X := X)
    simp [folded] at ok
  have admitted : F.admissible X tx L.nextHeight = .ok () := by
    unfold Transaction.isTrade at trade
    unfold admissible
    cases kind : tx.kind <;> simp_all
  simp only [admitted]
  obtain rfl : F = { L with capabilityHistory := h, historyLen := n } := by
    simpa [folded] using frame
  have index := (ready.with_history h n).foldCommittedIds
  unfold enqueue
  split
  · next known =>
    refine .of_cases index (by simp) (.inr ⟨by simp, ?_⟩)
    by_contra execution
    obtain ⟨-, uncommitted, unqueued⟩ := fresh (by simpa using execution)
    rcases Bool.or_eq_true _ _ ▸ known with committed | queued
    · exact uncommitted (by simpa using index.known_of_isCommitted committed)
    · exact unqueued (by simpa using isPending_iff.mp queued)
  · split
    · next full => simp at full; omega
    · exact .of_cases (index.with_pending _) (by simp) (.inl (by simp))

lemma Ready.restoreTransaction (fresh : tx.isExecution = true → tx.id ∉ chainIds L.chain ∧
      tx.id ∉ txIds L.pendingTransactions) : Queued L [tx] (L.restoreTransaction tx) := by
  rcases L.restoreTransaction_cases tx with ⟨known, e⟩ | ⟨-, -, e⟩ <;> rw [e]
  · refine .of_cases ready rfl (.inr ⟨rfl, ?_⟩)
    by_contra execution
    obtain ⟨uncommitted, unqueued⟩ := fresh (by simpa using execution)
    rcases known with committed | queued
    · exact uncommitted (ready.known_of_isCommitted committed)
    · exact unqueued (isPending_iff.mp queued)
  · exact .of_cases (ready.with_pending _) rfl (.inl rfl)

end

/-- Transactions offered one after the other, to a pool that does not fill. -/
theorem Queued.foldl (add : Ledger → Transaction → Ledger)
    (each : ∀ L tx, Ready L → tx ∈ txs → L.pendingTransactions.length < maxPendingTransactions →
      (tx.isExecution = true → tx.id ∉ chainIds L.chain ∧ tx.id ∉ txIds L.pendingTransactions) →
      Queued L [tx] (add L tx))
    (grows : ∀ L tx, L.pendingTransactions.length ≤ (add L tx).pendingTransactions.length)
    (ready : Ready L) (apart : txs.Pairwise Apart)
    (fresh : ∀ tx ∈ txs, tx.isExecution = true →
      tx.id ∉ chainIds L.chain ∧ tx.id ∉ txIds L.pendingTransactions)
    (room : (txs.foldl add L).pendingTransactions.length < maxPendingTransactions) :
    Queued L txs (txs.foldl add L) := by
  have monotone (txs : List Transaction) (L : Ledger) :
      L.pendingTransactions.length ≤ (txs.foldl add L).pendingTransactions.length := by
    induction txs generalizing L with
    | nil => exact le_rfl
    | cons tx txs ih => exact (grows L tx).trans (ih _)
  induction txs generalizing L with
  | nil => exact ⟨ready, rfl, [], by simp⟩
  | cons tx txs ih =>
    obtain ⟨first, rest⟩ := pairwise_cons.mp apart
    obtain ⟨ready', chain, added, pool, sub, executions⟩ := each L tx ready mem_cons_self
      (lt_of_le_of_lt (monotone (tx :: txs) L) room) (fresh tx mem_cons_self)
    have fresh' : ∀ t ∈ txs, t.isExecution = true → t.id ∉ chainIds (add L tx).chain ∧
        t.id ∉ txIds (add L tx).pendingTransactions := by
      intro t member execution
      obtain ⟨uncommitted, unqueued⟩ := fresh t (mem_cons_of_mem _ member) execution
      refine ⟨by rwa [chain], ?_⟩
      rw [pool, txIds_append, mem_append, not_or]
      refine ⟨unqueued, fun own => ?_⟩
      obtain ⟨u, taken, same⟩ := mem_map.mp own
      obtain rfl := mem_singleton.mp (sub.mem taken)
      exact first t member (.inr execution) same
    obtain ⟨ready'', chain', more, pool', sub', executions'⟩ := ih
      (fun L t ready member => each L t ready (mem_cons_of_mem _ member)) ready' rest fresh' room
    refine ⟨ready'', chain'.trans chain, added ++ more, ?_, ?_, ?_⟩
    · rw [foldl_cons, pool', pool, append_assoc]
    · exact sub.append sub'
    · rw [filter_append, executions, executions', ← filter_append]
      rfl

lemma Ledger.length_addTransaction (X : Externals) (L : Ledger) (tx : Transaction) :
    L.pendingTransactions.length ≤ (L.addTransaction X tx).1.pendingTransactions.length := by
  rcases L.addTransaction_cases X tx with e | e | e | ⟨-, -, e⟩ <;> rw [e] <;> simp

lemma Ledger.length_restoreTransaction (L : Ledger) (tx : Transaction) :
    L.pendingTransactions.length ≤ (L.restoreTransaction tx).pendingTransactions.length := by
  rcases L.restoreTransaction_cases tx with ⟨-, e⟩ | ⟨-, -, e⟩
  · rw [e]
  · simp [e]

lemma Ledger.addTransaction_error {L' : Ledger} {e : CoreError}
    (refused : L.addTransaction X tx = (L', .error e)) :
    L'.pendingTransactions = L.pendingTransactions := by
  unfold addTransaction at refused
  split at refused
  · cases refused
    rfl
  rcases folded : L.foldCapability X with ⟨F, e' | ⟨⟩⟩
  all_goals
    have pool : F.pendingTransactions = L.pendingTransactions := by
      simpa [folded] using foldCapability_pendingTransactions (X := X) (L := L)
    rw [folded] at refused
  · cases refused
    exact pool
  · simp only at refused
    split at refused
    · cases refused
      exact pool
    · unfold enqueue at refused
      split at refused
      · simp at refused
      · split at refused
        · cases refused
          simpa using pool
        · simp at refused

end Queue

/-- What every reached state satisfies. -/
structure Trading (s : TradeState) : Prop where
  ready : Ready s.node.ledger
  accounts : Accounts s.node.engine s.known

lemma chainIds_eq_txIds (chain : List Block) : chainIds chain = txIds (chainTxs chain) := by
  simp [chainIds, txIds, chainTxs, map_flatMap]

section Steps

variable {X : Externals} {J : OfferJson} {clock : String → Nat} {s : TradeState} {tx : Transaction}
  {p : Ledger.Prepared} {position : Nat}

/-- An execution apart from all of a ledger is new to its chain and to its pool. -/
theorem fresh_of_apart {L : Ledger} (execution : tx.isExecution = true)
    (committed : ∀ a ∈ chainTxs L.chain, Apart a tx)
    (queued : ∀ a ∈ L.pendingTransactions, Apart a tx) :
    tx.id ∉ chainIds L.chain ∧ tx.id ∉ txIds L.pendingTransactions := by
  rw [chainIds_eq_txIds]
  constructor
  · intro known
    obtain ⟨a, member, same⟩ := mem_map.mp known
    exact committed a member (.inr execution) same
  · intro known
    obtain ⟨a, member, same⟩ := mem_map.mp known
    exact queued a member (.inr execution) same

lemma Trading.deliver (inv : Trading s) (delivered : tx.Delivered)
    (unseen : Unseen s.node.engine s.known tx)
    (room : (s.node.ledger.addAll X (delivery X J clock s.node.engine tx)).pendingTransactions.length
      < maxPendingTransactions) (S : CommitState) :
    Trading ⟨⟨s.node.ledger.addAll X (delivery X J clock s.node.engine tx),
      (s.node.engine.onPeer X J clock tx).1, S, s.node.registry⟩, s.inFlight⟩ := by
  have apart := inv.accounts.apart_delivery X J clock delivered unseen
  have trade (t : Transaction) (member : t ∈ delivery X J clock s.node.engine tx) :
      t.isTrade = true ∧ (t.isExecution = true → t.id ≠ "") := by
    rcases mem_delivery member with rfl | ⟨offer, -, generated⟩
    · exact ⟨delivered.isTrade.1, by simp [delivered.isTrade.2]⟩
    · refine ⟨generated.trade, fun execution => ?_⟩
      obtain ⟨id, -, -, -, named⟩ := generated.execution execution
      rw [named]
      exact executionTxId_ne_empty _ _
  have fresh (t : Transaction) (member : t ∈ delivery X J clock s.node.engine tx)
      (execution : t.isExecution = true) : t.id ∉ chainIds s.node.ledger.chain ∧
        t.id ∉ txIds s.node.ledger.pendingTransactions :=
    fresh_of_apart execution (fun a old => apart a (by simp [TradeState.known, old]) t member)
      (fun a old => apart a (by simp [TradeState.known, old]) t member)
  obtain ⟨ready, chain, added, pool, kept, executions⟩ := Queued.foldl
    (fun L t => (L.addTransaction X t).1)
    (fun L t ready member room fresh => ready.addTransaction (trade t member).1 room
      fun execution => ⟨(trade t member).2 execution, fresh execution⟩)
    (fun L t => L.length_addTransaction X t) inv.ready (delivery_apart delivered) fresh room
  refine ⟨ready, ?_⟩
  have accounts := inv.accounts.deliver delivered unseen kept executions
  have known : s.known ++ added = TradeState.known
      ⟨⟨s.node.ledger.addAll X (delivery X J clock s.node.engine tx),
        (s.node.engine.onPeer X J clock tx).1, S, s.node.registry⟩, s.inFlight⟩ := by
    simp only [TradeState.known, addAll, chain, pool, append_assoc]
  rwa [known] at accounts

/-- A drained slice stands apart from all else. -/
theorem known_perm_eraseIdx (held : s.inFlight[position]? = some p) :
    s.known.Perm (chainTxs s.node.ledger.chain ++
      (s.inFlight.eraseIdx position).flatMap Ledger.Prepared.transactions ++
      s.node.ledger.pendingTransactions ++ p.transactions) := by
  obtain ⟨small, rfl⟩ := List.getElem?_eq_some_iff.mp held
  have split := (getElem_cons_eraseIdx_perm small).flatMap_right Ledger.Prepared.transactions
  simp only [TradeState.known, append_assoc]
  refine .append_left _ ?_
  refine (split.symm.append_right _).trans ?_
  rw [flatMap_cons, append_assoc, ← append_assoc (List.flatMap _ _)]
  exact perm_append_comm

lemma Trading.restore (inv : Trading s) (held : s.inFlight[position]? = some p)
    (room : (s.node.ledger.restorePending p.transactions).pendingTransactions.length <
      maxPendingTransactions) :
    Trading ⟨{ s.node with ledger := s.node.ledger.restorePending p.transactions },
      s.inFlight.eraseIdx position⟩ := by
  have accounts := inv.accounts.perm (known_perm_eraseIdx held)
  obtain ⟨-, inner, cross⟩ := pairwise_append.mp accounts.apart
  have fresh (t : Transaction) (member : t ∈ p.transactions) (execution : t.isExecution = true) :
      t.id ∉ chainIds s.node.ledger.chain ∧ t.id ∉ txIds s.node.ledger.pendingTransactions :=
    fresh_of_apart execution (fun a old => cross a (by simp [old]) t member)
      (fun a old => cross a (by simp [old]) t member)
  obtain ⟨ready, chain, added, pool, kept, executions⟩ := Queued.foldl
    Ledger.restoreTransaction (fun L t ready _ _ fresh => ready.restoreTransaction fresh)
    length_restoreTransaction inv.ready inner fresh room
  refine ⟨ready, ?_⟩
  have fewer := accounts.sublist (kept.append_left _) (by simp only [filter_append, executions])
  have known : chainTxs s.node.ledger.chain ++
      (s.inFlight.eraseIdx position).flatMap Ledger.Prepared.transactions ++
      s.node.ledger.pendingTransactions ++ added = TradeState.known
      ⟨{ s.node with ledger := s.node.ledger.restorePending p.transactions },
        s.inFlight.eraseIdx position⟩ := by
    simp only [TradeState.known, restorePending, chain, pool, append_assoc]
  rwa [known] at fewer

lemma Trading.prepare (inv : Trading s) {L : Ledger}
    (prepared : s.node.ledger.prepareMining = (L, .ok p)) :
    Trading ⟨{ s.node with ledger := L }, p :: s.inFlight⟩ := by
  obtain ⟨tip, -, rfl, rfl⟩ := prepareMining_eq_ok prepared
  refine ⟨inv.ready.with_pending _, inv.accounts.perm ?_⟩
  simp only [TradeState.known, ← s.node.ledger.slice_append_drainSlice, flatMap_cons, append_assoc]
  exact .append_left _ (perm_append_comm_assoc _ _ _)

/-- A commit that keeps its slice hands it back or appends the block. -/
theorem Trading.commit (inv : Trading s) (held : s.inFlight[position]? = some p) {block : Block}
    (drained : block.transactions = p.transactions)
    (keeps : CommitsOrRestores X s.node.ledger block p.previousHash)
    (room : (s.node.ledger.commitMinedBlock X block p.previousHash).1.pendingTransactions.length <
      maxPendingTransactions) :
    Trading ⟨{ s.node with ledger := (s.node.ledger.commitMinedBlock X block p.previousHash).1 },
      s.inFlight.eraseIdx position⟩ := by
  obtain ⟨tip, last, moved⟩ := keeps
  unfold commitMinedBlock at room ⊢
  simp only [last] at room ⊢
  by_cases stale : tip.hash ≠ p.previousHash
  · simp only [if_pos stale, drained] at room ⊢
    exact inv.restore held room
  · simp only [if_neg stale] at room ⊢
    have passed := moved.resolve_left stale
    obtain ⟨h, n, frame⟩ := commitGate_frame X s.node.ledger block
    rcases gate : s.node.ledger.commitGate X block with ⟨G, e | ⟨⟩⟩
    · simp [gate] at passed
    obtain rfl : G = { s.node.ledger with capabilityHistory := h, historyLen := n } := by
      simpa [gate] using frame
    have accounts := inv.accounts.perm (known_perm_eraseIdx held)
    have chain : chainTxs (s.node.ledger.chain ++ [block]) =
        chainTxs s.node.ledger.chain ++ p.transactions := by
      simp [chainTxs, drained]
    refine ⟨(inv.ready.with_history h n).pushCommitted fun t own => ?_, accounts.perm ?_⟩
    · exact accounts.trades t (by simp [← drained, own])
    · simp only [TradeState.known, Ledger.pushCommitted, chain, append_assoc]
      refine .append_left _ ?_
      rw [← append_assoc]
      exact perm_append_comm

lemma Trading.submit (inv : Trading s) (delivered : tx.Delivered)
    (unseen : Unseen s.node.engine s.known tx)
    (room : (s.node.submitTransaction X J clock tx).1.ledger.pendingTransactions.length <
      maxPendingTransactions) :
    Trading { s with node := (s.node.submitTransaction X J clock tx).1 } := by
  unfold IntakeState.submitTransaction at room ⊢
  rcases admitted : s.node.state.admitSubmission X s.node.ledger.chain tx with ⟨S, e | ⟨⟩⟩
  · exact ⟨inv.ready, inv.accounts⟩
  rcases added : s.node.ledger.addTransaction X tx with ⟨L, e | ⟨⟩⟩
  · simp only [admitted, added] at room ⊢
    have pool := addTransaction_error added
    have queued := inv.ready.addTransaction (X := X) delivered.isTrade.1 (by rwa [pool] at room)
      (by simp [delivered.isTrade.2])
    rw [added] at queued
    have chain : L.chain = s.node.ledger.chain := queued.chain
    refine ⟨queued.ready, ?_⟩
    simpa only [TradeState.known, chain, pool] using inv.accounts
  · simp only [admitted, added, onSubmit_eq_onPeer] at room ⊢
    have whole : L.addAll X (purchases (s.node.engine.onPeer X J clock tx).2) =
        s.node.ledger.addAll X (delivery X J clock s.node.engine tx) := by
      simp [addAll, delivery, added]
    rw [whole] at room ⊢
    exact inv.deliver delivered unseen room S

lemma Trading.peer (inv : Trading s) {sender : Option String} (delivered : tx.Delivered)
    (unseen : Unseen s.node.engine s.known tx)
    (room : (s.node.peerTransaction X J clock sender tx).ledger.pendingTransactions.length <
      maxPendingTransactions) :
    Trading { s with node := s.node.peerTransaction X J clock sender tx } := by
  unfold IntakeState.peerTransaction at room ⊢
  cases sender with
  | none => exact inv
  | some address =>
    simp only at room ⊢
    split
    · exact inv
    · next open_ =>
      rw [if_neg open_] at room
      exact inv.deliver delivered unseen room s.node.state

lemma Trading.step {t : TradeState} {input : TradeInput} (inv : Trading s)
    (once : input.Once X s) (step : input.Step X J s t) : Trading t := by
  obtain ⟨next, trades, room⟩ := step
  cases input with
  | submit clock tx =>
    cases next
    exact inv.submit trades once room
  | peer clock sender tx =>
    cases next
    exact inv.peer trades once room
  | prepare =>
    simp only [TradeInput.next] at next
    rcases prepared : s.node.ledger.prepareMining with ⟨L, e | p⟩
    all_goals
      rw [prepared] at next
      cases next
    · obtain run | ⟨tip, -, run⟩ := s.node.ledger.prepareMining_cases <;> rw [run] at prepared
      · cases prepared
        exact inv
      · cases prepared
    · exact inv.prepare prepared
  | commit position block =>
    obtain ⟨p, held, rfl⟩ := Option.map_eq_some_iff.mp next
    exact inv.commit held (trades p held) (once p held) room
  | restore position =>
    obtain ⟨p, held, rfl⟩ := Option.map_eq_some_iff.mp next
    exact inv.restore held room
  | lose position => exact once.elim

end Steps

/-- Along every run from a new ledger and an engine without contracts, in which deliveries are
unseen and no slice is lost, a contract has purchased what its executions add up to. -/
theorem offers_consumed_once (X : Externals) (J : OfferJson) {start final : TradeState}
    {clock : Nat → Nat} {fuel difficulty : Nat}
    (created : Ledger.new X clock fuel difficulty = some start.node.ledger)
    (idle : start.inFlight = []) (empty : ∀ id, start.node.engine.getContract id = none)
    (run : Reaches (TradeInput.Step X J) (TradeInput.Once X) start final) :
    ∀ id c, final.node.engine.getContract id = some c → c.quantityPurchased =
      ((distinctExecutions id final.known).map quantity).sum := by
  have trading : Trading final := by
    refine run.invariant (I := Trading) (fun _ _ _ inv once step => inv.step once step) ?_
    obtain ⟨genesis, mined, made⟩ := Option.map_eq_some_iff.mp created
    have silent : genesis.transactions = [] := (Block.mine_spec mined).transactions
    have nothing : start.known = [] := by
      simp [TradeState.known, ← made, idle, chainTxs, silent]
    refine ⟨⟨?_, ?_, ?_⟩, ?_⟩
    · simp [← made, chainTxs, silent]
    · simp [← made, IdsInv]
    · simp [← made, IdsCaughtUp]
    · rw [nothing]
      exact ⟨by simp, by simp, .nil, by simp [empty], fun _ _ => rfl⟩
  exact fun id c found => trading.accounts.quantity found

def tradeSample (X : Externals) : TradeState :=
  ⟨⟨(freshPool X).ledger, .new, ⟨none, fun _ => none, ∅, none, ⟨[]⟩, some ⟨[]⟩⟩, openRegistry⟩, []⟩

def sampleCreationTx : Transaction := ⟨"creation-1", 0, .contractCreation sampleDefinition, []⟩

def sampleOfferTx : Transaction := ⟨"offer-1", 0, .supplyOffer sampleOffer, []⟩

def tradeSampleAfter (X : Externals) (txs : List Transaction) : TradeState :=
  ⟨txs.foldl (fun N tx => N.peerTransaction X (fun _ => .ok []) (fun _ => 0) (some "peer") tx)
    (tradeSample X).node, []⟩

lemma tradeSample_step {X : Externals} (txs : List Transaction) {tx : Transaction}
    (delivered : tx.Delivered)
    (room : (tradeSampleAfter X (txs ++ [tx])).node.ledger.pendingTransactions.length <
      maxPendingTransactions) :
    TradeInput.Step X (fun _ => .ok []) (tradeSampleAfter X txs)
      (.peer (fun _ => 0) (some "peer") tx) (tradeSampleAfter X (txs ++ [tx])) := by
  refine ⟨?_, delivered, room⟩
  simp [TradeInput.next, tradeSampleAfter]

lemma sampleCreationTx_delivered : sampleCreationTx.Delivered := by
  simp [Transaction.Delivered, sampleCreationTx, sampleDefinition]

lemma sampleOfferTx_delivered : sampleOfferTx.Delivered := trivial

lemma tradeSample_empty (X : Externals) (id : String) :
    (tradeSample X).node.engine.getContract id = none := by
  simp [tradeSample, ContractEngine.new, getContract]

/-- A contract for a hundred units meets an offer of sixty, delivered twice: it has purchased a
hundred, and the only execution is for sixty. -/
theorem repeated_offer_booked_twice :
    let X := Externals.plain 0
    let final := tradeSampleAfter X [sampleCreationTx, sampleOfferTx, sampleOfferTx]
    Ledger.new X id 0 0 = some (tradeSample X).node.ledger ∧ (tradeSample X).inFlight = [] ∧
      (∀ id, (tradeSample X).node.engine.getContract id = none) ∧
      Reaches (TradeInput.Step X fun _ => .ok []) anyStep (tradeSample X) final ∧
      (final.node.engine.getContract "contract-1").map Contract.quantityPurchased = some 100 ∧
      ((distinctExecutions "contract-1" final.known).map quantity).sum = 60 := by
  intro X final
  have first := tradeSample_step (X := X) [] sampleCreationTx_delivered (by decide +kernel)
  have second := tradeSample_step (X := X) [sampleCreationTx] sampleOfferTx_delivered
    (by decide +kernel)
  have third := tradeSample_step (X := X) [sampleCreationTx, sampleOfferTx] sampleOfferTx_delivered
    (by decide +kernel)
  refine ⟨new_zero X, rfl, tradeSample_empty X, ?_, by decide +kernel, by decide +kernel⟩
  exact (((Reaches.refl _).tail _ trivial first).tail _ trivial second).tail _ trivial third

/-- Delivered once, the offer is booked once. -/
theorem offer_consumed_once_sample :
    let final := tradeSampleAfter (.plain 0) [sampleCreationTx, sampleOfferTx]
    ∃ c, final.node.engine.getContract "contract-1" = some c ∧ c.quantityPurchased = 60 ∧
      c.quantityPurchased =
        ((distinctExecutions "contract-1" final.known).map quantity).sum := by
  intro final
  have first := tradeSample_step (X := .plain 0) [] sampleCreationTx_delivered (by decide +kernel)
  have second := tradeSample_step (X := .plain 0) [sampleCreationTx] sampleOfferTx_delivered
    (by decide +kernel)
  have fresh : Unseen (tradeSample (.plain 0)).node.engine (tradeSample (.plain 0)).known
      sampleCreationTx := by
    refine ⟨fun t member => ?_, fun offer kind => ?_⟩
    · cases member
    · cases kind
  have new : Unseen (tradeSampleAfter (.plain 0) [sampleCreationTx]).node.engine
      (tradeSampleAfter (.plain 0) [sampleCreationTx]).known sampleOfferTx := by
    have known : (tradeSampleAfter (.plain 0) [sampleCreationTx]).known = [sampleCreationTx] := rfl
    rw [known]
    refine ⟨by decide, fun _ _ id _ _ _ clash => ?_⟩
    have lists := congrArg String.toList (mem_singleton.mp clash)
    simp [toList_executionTxId, sampleCreationTx] at lists
  have run : Reaches (TradeInput.Step (.plain 0) fun _ => .ok []) (TradeInput.Once (.plain 0))
      (tradeSample (.plain 0)) final :=
    ((Reaches.refl _).tail (.peer (fun _ => 0) (some "peer") sampleCreationTx) fresh first).tail
      (.peer (fun _ => 0) (some "peer") sampleOfferTx) new second
  have found : ∃ c, final.node.engine.getContract "contract-1" = some c ∧
      c.quantityPurchased = 60 := ⟨_, rfl, rfl⟩
  obtain ⟨c, present, purchased⟩ := found
  exact ⟨c, present, purchased, offers_consumed_once (.plain 0) _ (new_zero _) rfl
    (tradeSample_empty _) run "contract-1" c present⟩

end GlassChain
