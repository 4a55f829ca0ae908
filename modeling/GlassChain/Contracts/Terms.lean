import GlassChain.Contracts.Budget

/-!
# The buyer's terms

An offer is compared with the terms of a contract before the order is cut to what is left of the
budget, and the price of an execution is a saturating product. Away from these two the order and the
execution of every match keep to the terms.
-/

namespace GlassChain

/-- An order and its execution keep to the terms of a contract, for an offer. -/
structure Honours (c : Contract) (offer : SupplyOffer) (order : PurchaseOrder)
    (execution : ContractExecution) : Prop where
  atLeast : c.conditions.minQuantity ≤ order.quantity
  atMost : order.quantity ≤ offer.quantityAvailable
  quantity : execution.quantity = order.quantity
  price : order.agreedPricePerUnit ≤ c.conditions.maxPricePerUnit
  leadTime : offer.leadTimeDays ≤ c.conditions.maxLeadTimeDays
  currency : order.currency = c.conditions.currency ∧ execution.currency = c.conditions.currency
  seller : ∀ preferred, c.conditions.preferredSellerId = some preferred →
    order.sellerId = preferred ∧ execution.sellerId = preferred
  total : execution.totalPrice = order.quantity * order.agreedPricePerUnit

namespace Contract

variable {c : Contract} {offer : SupplyOffer}

/-- What a match has compared. -/
structure Matched (c : Contract) (offer : SupplyOffer) : Prop where
  currency : c.conditions.currency = offer.currency
  price : offer.pricePerUnit ≤ c.conditions.maxPricePerUnit
  leadTime : offer.leadTimeDays ≤ c.conditions.maxLeadTimeDays
  available : c.conditions.minQuantity ≤ offer.quantityAvailable
  seller : ∀ preferred, c.conditions.preferredSellerId = some preferred →
    offer.sellerId = preferred

lemma matched_of_takes (takes : c.takes offer = true) : c.Matched offer := by
  simp only [Contract.takes, offerMatches, Bool.and_eq_true, beq_iff_eq, decide_eq_true_eq] at takes
  obtain ⟨⟨⟨-, ⟨⟨⟨⟨⟨-, currency⟩, price⟩, leadTime⟩, available⟩, seller⟩⟩, -⟩, -⟩ := takes
  refine ⟨currency, price, leadTime, available, fun preferred named => ?_⟩
  rw [named] at seller
  exact (eq_of_beq seller).symm

lemma minQuantity_le_ordered (available : c.conditions.minQuantity ≤ offer.quantityAvailable) :
    c.conditions.minQuantity ≤ c.orderedQuantity offer ↔ c.conditions.minQuantity ≤ c.remaining := by
  simp only [orderedQuantity, remaining]
  omega

/-- A purchase keeps to the terms if the budget left covers the minimum and the price is a `u64`. -/
theorem honours_iff (matched : c.Matched offer) (offerTxId : String) :
    Honours c offer (c.orderFor offer) (c.executionFor offer offerTxId) ↔
      c.conditions.minQuantity ≤ c.remaining ∧
        c.orderedQuantity offer * offer.pricePerUnit ≤ u64Max := by
  constructor
  · intro honours
    exact ⟨(minQuantity_le_ordered matched.available).mp honours.atLeast,
      min_eq_left_iff.mp honours.total⟩
  · rintro ⟨enough, exact⟩
    refine ⟨(minQuantity_le_ordered matched.available).mpr enough, ?_, rfl, matched.price,
      matched.leadTime, ⟨matched.currency.symm, matched.currency.symm⟩, fun preferred named => ?_,
      min_eq_left exact⟩
    · exact (min_le_left _ _).trans (min_le_right _ _)
    · exact ⟨matched.seller preferred named, matched.seller preferred named⟩

end Contract

/-- For every state of the engine and every offer: the order and the execution returned for a
contract keep to its terms exactly when the budget left covers the minimum quantity and the product
of quantity and price is a `u64`. -/
theorem orders_honour_terms_iff (X : Externals) (J : OfferJson) (clock : String → Nat)
    (E : ContractEngine) (offer : SupplyOffer) (offerTxId : String) {id : String} {c : Contract}
    (known : E.getContract id = some c) {orderTx executionTx : Transaction} {order : PurchaseOrder}
    {execution : ContractExecution}
    (ordered : orderTx ∈ purchases (E.evaluateSupplyOffer X J clock offer offerTxId).2)
    (executed : executionTx ∈ purchases (E.evaluateSupplyOffer X J clock offer offerTxId).2)
    (isOrder : orderTx.kind = .purchaseOrder order ∧ order.contractId = some id)
    (isExecution : executionTx.kind = .contractExecution execution ∧ execution.contractId = id) :
    Honours c offer order execution ↔ c.conditions.minQuantity ≤ c.remaining ∧
      c.orderedQuantity offer * offer.pricePerUnit ≤ u64Max := by
  have generated {tx : Transaction} (ref : tx.contractRef = some id)
      (member : tx ∈ purchases (E.evaluateSupplyOffer X J clock offer offerTxId).2) :
      c.takes offer = true ∧ tx ∈ c.generated clock offer offerTxId := by
    obtain ⟨_, _, _, d, same, found, takes, bought⟩ :=
      ContractEngine.generated_of_mem (k := .offer clock offer offerTxId) member ref
    cases same
    obtain rfl := Option.some.inj (known.symm.trans found)
    exact ⟨takes, bought⟩
  obtain ⟨orderKind, orderRef⟩ := isOrder
  obtain ⟨executionKind, executionRef⟩ := isExecution
  obtain ⟨takes, first⟩ := generated (by simp [Transaction.contractRef, orderKind, orderRef]) ordered
  obtain ⟨-, second⟩ :=
    generated (by simp [Transaction.contractRef, executionKind, executionRef]) executed
  obtain rfl : order = c.orderFor offer := by
    rcases List.mem_pair.mp first with rfl | rfl <;> cases orderKind
    rfl
  obtain rfl : execution = c.executionFor offer offerTxId := by
    rcases List.mem_pair.mp second with rfl | rfl <;> cases executionKind
    rfl
  exact Contract.honours_iff (Contract.matched_of_takes takes) offerTxId

/-! A contract for at least fifty and at most a hundred units. -/

def bulkDefinition : SmartContractDef :=
  ⟨"contract-1", "buyer-1", "SKU-1", ⟨2 ^ 63, 50, 100, 14, some "seller-1", "USD", true⟩, none⟩

def sixtyUnits (price : Nat) : SupplyOffer := ⟨"SKU-1", "Widget", "seller-1", 60, price, 7, "USD"⟩

noncomputable def bulkEngine (offers : List String) : ContractEngine :=
  ContractEngine.ran (.plain 0) (fun _ => .ok []) none
    (.register bulkDefinition :: offers.map (.offer (fun _ => 0) (sixtyUnits 1250)))

noncomputable def bulkPurchase (offers : List String) (price : Nat) : List TransactionKind :=
  (purchases ((bulkEngine offers).evaluateSupplyOffer (.plain 0) (fun _ => .ok []) (fun _ => 0)
    (sixtyUnits price) "next").2).map Transaction.kind

/-- The first offer is bought whole. -/
theorem orders_honour_terms_sample : ∃ c order execution,
    (bulkEngine []).getContract "contract-1" = some c ∧
      bulkPurchase [] 1250 = [.purchaseOrder order, .contractExecution execution] ∧
      Honours c (sixtyUnits 1250) order execution := by
  let c := Contract.new bulkDefinition
  let returned := purchases ((bulkEngine []).evaluateSupplyOffer (.plain 0) (fun _ => .ok [])
    (fun _ => 0) (sixtyUnits 1250) "next").2
  have known : (bulkEngine []).getContract "contract-1" = some c := rfl
  have bought : returned = c.generated (fun _ => 0) (sixtyUnits 1250) "next" := rfl
  have ordered : .withId (fun _ => 0) (purchaseOrderTxId c.id "next")
      (.purchaseOrder (c.orderFor (sixtyUnits 1250))) ∈ returned := by
    rw [bought]
    exact List.mem_cons_self
  have executed : .withId (fun _ => 0) (executionTxId c.id "next")
      (.contractExecution (c.executionFor (sixtyUnits 1250) "next")) ∈ returned := by
    rw [bought]
    exact List.mem_cons_of_mem _ List.mem_cons_self
  refine ⟨c, _, _, known, rfl, ?_⟩
  refine (orders_honour_terms_iff (.plain 0) (fun _ => .ok []) (fun _ => 0) (bulkEngine [])
    (sixtyUnits 1250) "next" known ordered executed ⟨rfl, rfl⟩ ⟨rfl, rfl⟩).mpr ?_
  decide

/-- The second offer is cut to the forty units left, below the minimum; and at a price of 2^63 the
total is cut to the largest `u64`. -/
theorem terms_not_honoured :
    (∃ order execution,
      bulkPurchase ["first"] 1250 = [.purchaseOrder order, .contractExecution execution] ∧
      order.quantity = 40 ∧ order.quantity < bulkDefinition.conditions.minQuantity) ∧
    ∃ order execution,
      bulkPurchase [] (2 ^ 63) = [.purchaseOrder order, .contractExecution execution] ∧
      order.quantity * order.agreedPricePerUnit = 60 * 2 ^ 63 ∧ execution.totalPrice = 2 ^ 64 - 1 := by
  refine ⟨⟨_, _, rfl, ?_, ?_⟩, _, _, rfl, ?_, ?_⟩
  all_goals decide

end GlassChain
