import GlassChain.Workflows.Resume

/-!
# The purchase-to-settlement flow

Buyer and seller run one table of transitions each and coordinate through committed records: the
buyer emits a purchase order, which the seller consumes; the seller emits a shipment, which the
buyer consumes; the buyer emits a delivery receipt, which the seller consumes. Anyone may commit
records, and a transition sees all of them: the fields it compares are all that ties a record to the
deal.
-/

namespace GlassChain

open Library FlowRunner List CanonicalRecord

/-- `CanonicalRecord::new` with the record id its callers set. -/
def CanonicalRecord.new (recordId : String) (occurredAt : Nat) (schemaId : String)
    (payload : List (String × Value)) (issuer : String) : CanonicalRecord :=
  { recordId, schemaId, schemaVersion := 1, commitment := none, occurredAt, issuer,
    signatures := [], pdcRef := none, extensions := [], payload }

/-- `payload.get(name).and_then(Value::as_str)`. -/
def CanonicalRecord.text (record : CanonicalRecord) (name : String) : Option String :=
  (lookup name record.payload).bind Value.asStr

def startsWith (front text : String) : Bool := front.toList.isPrefixOf text.toList

structure PurchaseFlowConfig where
  org : String
  counterparty : String
  productId : String
  quantity : Nat
  currency : String
  lotRef : String
  rfqId : String
  negotiatedAt : Nat
  deliveryOn : String

variable (config : PurchaseFlowConfig)

def PurchaseFlowConfig.shipmentTimestamp : Option Nat :=
  if config.negotiatedAt + 1 < 2 ^ 64 then some (config.negotiatedAt + 1) else none

def buildPurchaseOrder (rfqId : String) (config : PurchaseFlowConfig) : CanonicalRecord :=
  .new s!"po:{rfqId}" config.negotiatedAt "purchase_order"
    [("buyer_id", .string config.org), ("currency", .string config.currency),
      ("product_id", .string config.productId), ("quantity", .number (.posInt config.quantity)),
      ("seller_id", .string config.counterparty)] config.org

def shipmentId (poRef lotRef : String) : String := s!"shipment:{poRef}:{lotRef}"

def buildShipment (poRef : String) (occurredAt : Nat) (config : PurchaseFlowConfig) :
    CanonicalRecord :=
  .new (shipmentId poRef config.lotRef) occurredAt "shipment"
    [("from_org", .string config.org), ("lot_ref", .string config.lotRef),
      ("to_org", .string config.counterparty)] config.org

structure ShipmentToReceiptTransition where
  receiverId : String
  issuer : String
  receivedOn : String

/-- The sum is a `u64`. -/
def buildReceipt (shipment : CanonicalRecord) (transition : ShipmentToReceiptTransition) :
    CanonicalRecord :=
  .new s!"receipt:{shipment.recordId}" ((shipment.occurredAt + 1) % 2 ^ 64) "delivery_receipt"
    [("received_at", .string transition.receivedOn), ("receiver_id", .string transition.receiverId),
      ("shipment_ref", .string shipment.recordId)] transition.issuer

inductive PurchaseFlowState where
  | rfqIssued (rfqId : String)
  | quoteAccepted (rfqId quoteId : String)
  | awaitingShipment (poRef : String)
  | awaitingPurchaseOrder
  | poAccepted (poRef : String)
  | awaitingReceipt (poRef shipmentRef : String)
  | delivered (poRef receiptRef : String)
  | disputed (poRef receiptRef reason : String)
  | settled (poRef : String)
  deriving DecidableEq, Repr

instance : FlowState PurchaseFlowState where
  step
    | .rfqIssued _ => "rfq_issued"
    | .quoteAccepted .. => "quote_accepted"
    | .awaitingShipment _ => "awaiting_shipment"
    | .awaitingPurchaseOrder => "awaiting_purchase_order"
    | .poAccepted _ => "po_accepted"
    | .awaitingReceipt .. => "awaiting_receipt"
    | .delivered .. => "delivered"
    | .disputed .. => "disputed"
    | .settled _ => "settled"

def TransitionResult.unchanged {S : Type} (state : S) : TransitionResult S := ⟨state, [], false⟩

def quoteAcceptedPrefix : String := "quote-accepted:"

def textAfter (front text : String) : String :=
  String.ofList (text.toList.drop front.toList.length)

def acceptQuote : Transition PurchaseFlowState where
  name := "AcceptQuote"
  matchesPair
    | .rfqIssued _, .woken reason => startsWith quoteAcceptedPrefix reason
    | _, _ => false
  apply
    | .rfqIssued rfqId, .woken reason =>
      ⟨.quoteAccepted rfqId (textAfter quoteAcceptedPrefix reason), [], false⟩
    | state, _ => .unchanged state

def commitPurchaseOrder : Transition PurchaseFlowState where
  name := "CommitPurchaseOrder"
  matchesPair
    | .quoteAccepted .., .woken reason => reason == "commit-po"
    | _, _ => false
  apply
    | .quoteAccepted rfqId _, .woken _ =>
      let purchaseOrder := buildPurchaseOrder rfqId config
      ⟨.awaitingShipment purchaseOrder.recordId, [.emitRecord purchaseOrder], false⟩
    | state, _ => .unchanged state

def acceptPurchaseOrder : Transition PurchaseFlowState where
  name := "AcceptPurchaseOrder"
  matchesPair
    | .awaitingPurchaseOrder, .recordCommitted record =>
      record.schemaId == "purchase_order" && record.text "buyer_id" == some config.counterparty &&
        record.text "seller_id" == some config.org
    | _, _ => false
  apply
    | _, .recordCommitted purchaseOrder => ⟨.poAccepted purchaseOrder.recordId, [], false⟩
    | state, _ => .unchanged state

def shipOrder : Transition PurchaseFlowState where
  name := "ShipOrder"
  matchesPair
    | .poAccepted _, .woken reason => reason == "ship"
    | _, _ => false
  apply
    | .poAccepted poRef, .woken _ =>
      match config.shipmentTimestamp with
      | none => .unchanged (.poAccepted poRef)
      | some occurredAt =>
        let shipment := buildShipment poRef occurredAt config
        ⟨.awaitingReceipt poRef shipment.recordId, [.emitRecord shipment], false⟩
    | state, _ => .unchanged state

def recordDelivery : Transition PurchaseFlowState where
  name := "RecordDelivery"
  matchesPair
    | .awaitingShipment poRef, .recordCommitted record =>
      record.schemaId == "shipment" && record.text "lot_ref" == some config.lotRef &&
        record.text "from_org" == some config.counterparty &&
        record.text "to_org" == some config.org && startsWith s!"shipment:{poRef}:" record.recordId
    | _, _ => false
  apply
    | .awaitingShipment poRef, .recordCommitted shipment =>
      let receipt := buildReceipt shipment ⟨config.org, config.org, config.deliveryOn⟩
      ⟨.delivered poRef receipt.recordId, [.emitRecord receipt], false⟩
    | state, _ => .unchanged state

def awaitSettlement : Transition PurchaseFlowState where
  name := "AwaitSettlement"
  matchesPair
    | .awaitingReceipt _ shipmentRef, .recordCommitted record =>
      record.schemaId == "delivery_receipt" && record.text "shipment_ref" == some shipmentRef
    | _, _ => false
  apply
    | .awaitingReceipt poRef _, .recordCommitted receipt =>
      ⟨.delivered poRef receipt.recordId, [], false⟩
    | state, _ => .unchanged state

def raiseDispute : Transition PurchaseFlowState where
  name := "RaiseDispute"
  matchesPair
    | .delivered .., .woken reason => startsWith "dispute:" reason
    | _, _ => false
  apply
    | .delivered poRef receiptRef, .woken reason =>
      ⟨.disputed poRef receiptRef (textAfter "dispute:" reason), [], false⟩
    | state, _ => .unchanged state

def settle : Transition PurchaseFlowState where
  name := "Settle"
  matchesPair
    | .delivered .., .woken reason => reason == "settle"
    | .disputed .., .woken reason => reason == "settle"
    | _, _ => false
  apply
    | .delivered poRef _, _ => ⟨.settled poRef, [], true⟩
    | .disputed poRef _ _, _ => ⟨.settled poRef, [], true⟩
    | state, _ => .unchanged state

def buyerFlow : FlowRunner PurchaseFlowState where
  flowKind := "purchase_to_settlement"
  transitions :=
    [acceptQuote, commitPurchaseOrder config, recordDelivery config, raiseDispute, settle]

def sellerFlow : FlowRunner PurchaseFlowState where
  flowKind := "purchase_to_settlement"
  transitions :=
    [acceptPurchaseOrder config, shipOrder config, awaitSettlement, raiseDispute, settle]

variable (config : PurchaseFlowConfig)

/-- A purchase order from the counterparty to this organization, by its payload. -/
structure Offered (record : CanonicalRecord) : Prop where
  schema : record.schemaId = "purchase_order"
  buyer : record.text "buyer_id" = some config.counterparty
  seller : record.text "seller_id" = some config.org

/-- A receipt that refers to a shipment. -/
structure Receipted (shipmentRef : String) (record : CanonicalRecord) : Prop where
  schema : record.schemaId = "delivery_receipt"
  shipment : record.text "shipment_ref" = some shipmentRef

/-- A shipment of the lot from the counterparty to this organization, by its payload, with an id
that begins as those for the purchase order do. -/
structure Shipped (poRef : String) (record : CanonicalRecord) : Prop where
  schema : record.schemaId = "shipment"
  lot : record.text "lot_ref" = some config.lotRef
  sender : record.text "from_org" = some config.counterparty
  receiver : record.text "to_org" = some config.org
  order : startsWith s!"shipment:{poRef}:" record.recordId = true

lemma tryApply_cons (flowKind : String) (t : Transition S) (rest : List (Transition S))
    (state : S) (event : FlowEvent) :
    (FlowRunner.mk flowKind (t :: rest)).tryApply state event =
      if t.matchesPair state event then some (t.apply state event)
      else (FlowRunner.mk flowKind rest).tryApply state event := by
  cases taken : t.matchesPair state event <;> simp [tryApply, taken]

lemma tryApply_nil (flowKind : String) (state : S) (event : FlowEvent) :
    (FlowRunner.mk flowKind []).tryApply state event = none := rfl

inductive ClosingStep : PurchaseFlowState → FlowEvent → TransitionResult PurchaseFlowState → Prop
  | dispute {poRef receiptRef reason} : startsWith "dispute:" reason = true →
      ClosingStep (.delivered poRef receiptRef) (.woken reason)
        ⟨.disputed poRef receiptRef (textAfter "dispute:" reason), [], false⟩
  | settle {poRef receiptRef} : ClosingStep (.delivered poRef receiptRef) (.woken "settle")
      ⟨.settled poRef, [], true⟩
  | resolve {poRef receiptRef reason} :
      ClosingStep (.disputed poRef receiptRef reason) (.woken "settle") ⟨.settled poRef, [], true⟩

inductive SellerStep : PurchaseFlowState → FlowEvent → TransitionResult PurchaseFlowState → Prop
  | accept {order} : Offered config order → SellerStep .awaitingPurchaseOrder
      (.recordCommitted order) ⟨.poAccepted order.recordId, [], false⟩
  | ship {poRef occurredAt} : config.shipmentTimestamp = some occurredAt →
      SellerStep (.poAccepted poRef) (.woken "ship")
        ⟨.awaitingReceipt poRef (shipmentId poRef config.lotRef),
          [.emitRecord (buildShipment poRef occurredAt config)], false⟩
  | stay {poRef} : config.shipmentTimestamp = none →
      SellerStep (.poAccepted poRef) (.woken "ship") (.unchanged (.poAccepted poRef))
  | receive {poRef shipmentRef receipt} : Receipted shipmentRef receipt →
      SellerStep (.awaitingReceipt poRef shipmentRef) (.recordCommitted receipt)
        ⟨.delivered poRef receipt.recordId, [], false⟩
  | closing {state event result} : ClosingStep state event result → SellerStep state event result

variable {S : Type}

inductive BuyerStep : PurchaseFlowState → FlowEvent → TransitionResult PurchaseFlowState → Prop
  | quote {rfqId reason} : startsWith quoteAcceptedPrefix reason = true →
      BuyerStep (.rfqIssued rfqId) (.woken reason)
        ⟨.quoteAccepted rfqId (textAfter quoteAcceptedPrefix reason), [], false⟩
  | commit {rfqId quoteId} : BuyerStep (.quoteAccepted rfqId quoteId) (.woken "commit-po")
      ⟨.awaitingShipment s!"po:{rfqId}", [.emitRecord (buildPurchaseOrder rfqId config)], false⟩
  | receive {poRef shipment} : Shipped config poRef shipment →
      BuyerStep (.awaitingShipment poRef) (.recordCommitted shipment)
        ⟨.delivered poRef s!"receipt:{shipment.recordId}",
          [.emitRecord (buildReceipt shipment ⟨config.org, config.org, config.deliveryOn⟩)], false⟩
  | closing {state event result} : ClosingStep state event result → BuyerStep state event result

variable {state : PurchaseFlowState} {event : FlowEvent} {result : TransitionResult PurchaseFlowState}

lemma closing_tryApply {flowKind : String}
    (taken : (FlowRunner.mk flowKind [raiseDispute, settle]).tryApply state event = some result) :
    ClosingStep state event result := by
  rw [tryApply_cons, tryApply_cons, tryApply_nil] at taken
  split at taken
  · rename_i disputed
    simp only [raiseDispute] at disputed taken
    split at disputed
    · exact Option.some.inj taken ▸ .dispute disputed
    · cases disputed
  · split at taken
    · rename_i settled
      simp only [settle] at settled taken
      split at settled
      · obtain rfl := eq_of_beq settled
        exact Option.some.inj taken ▸ .settle
      · obtain rfl := eq_of_beq settled
        exact Option.some.inj taken ▸ .resolve
      · cases settled
    · simp at taken

/-- The first match among the seller's transitions is a step. -/
lemma sellerFlow_tryApply :
    (sellerFlow config).tryApply state event = some result ↔
      SellerStep config state event result := by
  constructor
  · intro taken
    rw [sellerFlow, tryApply_cons, tryApply_cons, tryApply_cons] at taken
    split at taken
    · rename_i accepted
      simp only [acceptPurchaseOrder] at accepted taken
      split at accepted
      · obtain ⟨⟨schema, buyer⟩, seller⟩ : (_ ∧ _) ∧ _ := by
          simpa only [Bool.and_eq_true, beq_iff_eq] using accepted
        exact Option.some.inj taken ▸ .accept ⟨schema, buyer, seller⟩
      · cases accepted
    split at taken
    · rename_i _ shipped
      simp only [shipOrder] at shipped taken
      split at shipped
      · obtain rfl := eq_of_beq shipped
        cases stamped : config.shipmentTimestamp with
        | none =>
          rw [stamped] at taken
          exact Option.some.inj taken ▸ .stay stamped
        | some occurredAt =>
          rw [stamped] at taken
          exact Option.some.inj taken ▸ .ship stamped
      · cases shipped
    split at taken
    · rename_i _ _ received
      simp only [awaitSettlement] at received taken
      split at received
      · obtain ⟨schema, shipment⟩ : _ ∧ _ := by
          simpa only [Bool.and_eq_true, beq_iff_eq] using received
        exact Option.some.inj taken ▸ .receive ⟨schema, shipment⟩
      · cases received
    exact .closing (closing_tryApply taken)
  · intro step
    simp only [sellerFlow, tryApply_cons, tryApply_nil]
    cases step with
    | accept offered => simp [acceptPurchaseOrder, offered.schema, offered.buyer, offered.seller]
    | ship stamped => simp [acceptPurchaseOrder, shipOrder, stamped, buildShipment, new]
    | stay late => simp [acceptPurchaseOrder, shipOrder, late]
    | receive received =>
      simp [acceptPurchaseOrder, shipOrder, awaitSettlement, received.schema, received.shipment]
    | closing step =>
      cases step with
      | dispute begins =>
        simp [acceptPurchaseOrder, shipOrder, awaitSettlement, raiseDispute, begins]
      | settle => rfl
      | resolve => rfl

lemma buyerFlow_tryApply :
    (buyerFlow config).tryApply state event = some result ↔ BuyerStep config state event result := by
  constructor
  · intro taken
    rw [buyerFlow, tryApply_cons, tryApply_cons, tryApply_cons] at taken
    split at taken
    · rename_i quoted
      simp only [acceptQuote] at quoted taken
      split at quoted
      · exact Option.some.inj taken ▸ .quote quoted
      · cases quoted
    split at taken
    · rename_i _ committed
      simp only [commitPurchaseOrder] at committed taken
      split at committed
      · obtain rfl := eq_of_beq committed
        exact Option.some.inj taken ▸ .commit
      · cases committed
    split at taken
    · rename_i _ _ received
      simp only [recordDelivery] at received taken
      split at received
      · obtain ⟨⟨⟨⟨schema, lot⟩, sender⟩, receiver⟩, order⟩ : (((_ ∧ _) ∧ _) ∧ _) ∧ _ := by
          simpa only [Bool.and_eq_true, beq_iff_eq] using received
        exact Option.some.inj taken ▸ .receive ⟨schema, lot, sender, receiver, order⟩
      · cases received
    exact .closing (closing_tryApply taken)
  · intro step
    simp only [buyerFlow, tryApply_cons, tryApply_nil]
    cases step with
    | quote begins => simp [acceptQuote, begins]
    | commit => simp [acceptQuote, commitPurchaseOrder, buildPurchaseOrder, new]
    | receive h =>
      simp [acceptQuote, commitPurchaseOrder, recordDelivery, h.schema, h.lot, h.sender, h.receiver,
        h.order, buildReceipt, new]
    | closing step =>
      cases step with
      | dispute begins =>
        simp [acceptQuote, commitPurchaseOrder, recordDelivery, raiseDispute, begins]
      | settle => rfl
      | resolve => rfl

def FlowEvent.records : FlowEvent → List CanonicalRecord
  | .recordCommitted record => [record]
  | _ => []

section Consumed

variable {S : Type} (R : FlowRunner S) (initialState : S)

/-- The state of a flow and the records that its transitions took since it began. -/
def FlowRunner.consume (run : Option S × List CanonicalRecord) (event : FlowEvent) :
    Option S × List CanonicalRecord :=
  if event.isResumed then run else
  match R.tryApply (run.1.getD initialState) event with
  | none => run
  | some result => (result.next, if result.completed then [] else run.2 ++ event.records)

def FlowRunner.consumed (events : List FlowEvent) : Option S × List CanonicalRecord :=
  events.foldl (R.consume initialState) (none, [])

lemma FlowRunner.consumed_concat (past : List FlowEvent) (event : FlowEvent) :
    R.consumed initialState (past ++ [event]) =
      R.consume initialState (R.consumed initialState past) event := by
  simp [consumed]

lemma FlowRunner.consume_of_tryApply {R : FlowRunner S} {initialState state : S}
    {event : FlowEvent} {result : TransitionResult S}
    (applied : R.tryApply state event = some result) {current : Option S}
    (held : current.getD initialState = state) (input : event.isResumed = false)
    (goes : result.completed = false) (taken : List CanonicalRecord) :
    R.consume initialState (current, taken) event =
      (some result.state, taken ++ event.records) := by
  simp [consume, input, held, applied, TransitionResult.next, goes]

lemma FlowRunner.consume_fst (run : Option S × List CanonicalRecord) (event : FlowEvent) :
    (R.consume initialState run event).1 = (R.flow initialState run.1 event).1 := by
  unfold consume flow
  grind

lemma FlowRunner.consumed_fst (events : List FlowEvent) :
    (R.consumed initialState events).1 = (R.flowRun initialState events).1 := by
  induction events using List.reverseRecOn with
  | nil => rfl
  | append_singleton past event ih =>
    rw [R.consumed_concat, R.consume_fst, R.flowRun_concat, ih]

/-- What holds at the start and is kept by every transition that does not complete the flow holds of
its state and of what it consumed. -/
theorem FlowRunner.consumed_induction {P : S → List CanonicalRecord → Prop}
    (start : P initialState []) (events : List FlowEvent)
    (step : ∀ state taken event result, event ∈ events → P state taken →
      R.tryApply state event = some result → result.completed = false →
      P result.state (taken ++ event.records)) :
    P ((R.consumed initialState events).1.getD initialState)
      (R.consumed initialState events).2 := by
  induction events using List.reverseRecOn with
  | nil => exact start
  | append_singleton past event ih =>
    have before := ih fun state taken e result member =>
      step state taken e result (mem_append_left _ member)
    rw [R.consumed_concat]
    unfold consume
    split
    · exact before
    · split
      · exact before
      · rename_i result applied
        cases closed : result.completed with
        | true => simpa [TransitionResult.next, closed] using start
        | false =>
          simpa [TransitionResult.next, closed] using
            step _ _ event result (by simp) before applied closed

end Consumed

/-- After some events, all of whose records are among `records`, the runner has saved the state,
having consumed the records `taken`. -/
def FlowRunner.Reached {S : Type} [FlowState S] (R : FlowRunner S) (initialState : S)
    (records : Set CanonicalRecord) (state : S) (taken : List CanonicalRecord) : Prop :=
  ∃ (debug : FlowEvent → String) (flowId : String) (M M' : FlowMemory S)
    (events : List (FlowEvent × Nat)) (actions : List Action) (saved : Checkpoint S),
    M.storage.lookup flowId = none ∧
    (∀ record, .recordCommitted record ∈ events.map Prod.fst → record ∈ records) ∧
    R.crashFree debug flowId initialState M events = .ok (M', actions) ∧
    M'.saved flowId = some saved ∧ saved.state = state ∧
    taken = (R.consumed initialState (events.map Prod.fst)).2

/-- Reaching a state is a matter of the events alone. -/
lemma FlowRunner.reached_iff [FlowState S] {R : FlowRunner S} {initialState : S}
    {records : Set CanonicalRecord} {state : S} {taken : List CanonicalRecord} :
    R.Reached initialState records state taken ↔
      ∃ events, (∀ record, .recordCommitted record ∈ events → record ∈ records) ∧
        R.consumed initialState events = (some state, taken) := by
  constructor
  · rintro ⟨debug, flowId, M, M', events, actions, saved, fresh, among, run, found, rfl, rfl⟩
    refine ⟨events.map Prod.fst, among, Prod.ext ?_ rfl⟩
    obtain ⟨M₁, alone, waiting⟩ := R.crashFree_spec debug initialState fresh events
    obtain ⟨rfl, -⟩ := Prod.mk.inj (Except.ok.inj (run.symm.trans alone))
    rw [waiting] at found
    obtain ⟨state, reached, rfl⟩ := Option.map_eq_some_iff.mp found
    rw [R.consumed_fst, reached]
    rfl
  · rintro ⟨events, among, reached⟩
    have fresh : (⟨∅, ∅⟩ : FlowMemory S).storage.lookup "" = none := rfl
    obtain ⟨M', alone, waiting⟩ := R.crashFree_spec (fun _ => "") initialState fresh
      (events.map fun event => (event, 0))
    have all : (events.map fun event => (event, 0)).map Prod.fst = events := by
      simp [Function.comp_def]
    rw [all] at alone waiting
    rw [← R.consumed_fst, reached] at waiting
    exact ⟨fun _ => "", "", ⟨∅, ∅⟩, M', _, _, _, rfl, all.symm ▸ among, alone, waiting, rfl,
      by rw [all, reached]⟩

lemma FlowRunner.Reached.mem [FlowState S] {R : FlowRunner S} {initialState : S}
    {records : Set CanonicalRecord} {state : S} {taken : List CanonicalRecord}
    (h : R.Reached initialState records state taken) : ∀ record ∈ taken, record ∈ records := by
  obtain ⟨events, among, reached⟩ := reached_iff.mp h
  have kept := R.consumed_induction (P := fun _ taken => ∀ record ∈ taken, record ∈ records)
    initialState (by simp) events
  rw [reached] at kept
  apply kept
  intro state taken event result sent before _ _ record member
  rcases mem_append.mp member with earlier | now
  · exact before record earlier
  · cases event with
    | recordCommitted committed =>
      obtain rfl : record = committed := by simpa [FlowEvent.records] using now
      exact among record sent
    | transactionCommitted | woken | resumed => simp [FlowEvent.records] at now

def CanonicalRecord.amount (record : CanonicalRecord) (name : String) : Option Nat :=
  match lookup name record.payload with
  | some (.number n) => n.asU64
  | _ => none

/-- The counterparty's own purchase order, on the configured terms. -/
structure Agreed (order : CanonicalRecord) : Prop where
  issuer : order.issuer = config.counterparty
  product : order.text "product_id" = some config.productId
  quantity : order.amount "quantity" = some config.quantity
  currency : order.text "currency" = some config.currency

/-- What a seller's state should rest on. -/
structure SellerAuthentic (state : PurchaseFlowState) (taken : List CanonicalRecord) : Prop where
  accepted : ∀ poRef, state = .poAccepted poRef → ∃ order, taken = [order] ∧ Agreed config order
  delivered : ∀ poRef receiptRef, state = .delivered poRef receiptRef → ∃ order receipt,
    taken = [order, receipt] ∧ Agreed config order ∧ receipt.issuer = config.counterparty

/-- The counterparty's own shipment of the lot for the order. -/
structure OwnShipment (poRef : String) (shipment : CanonicalRecord) : Prop where
  issuer : shipment.issuer = config.counterparty
  lot : shipment.text "lot_ref" = some config.lotRef
  order : shipment.recordId = shipmentId poRef config.lotRef

def BuyerAuthentic (rfqId : String) (state : PurchaseFlowState) (taken : List CanonicalRecord) :
    Prop :=
  ∀ poRef receiptRef, state = .delivered poRef receiptRef →
    ∃ shipment, taken = [shipment] ∧ OwnShipment config s!"po:{rfqId}" shipment

inductive SellerHistory : PurchaseFlowState → List CanonicalRecord → Prop
  | start : SellerHistory .awaitingPurchaseOrder []
  | accepted {order} (offered : Offered config order) :
      SellerHistory (.poAccepted order.recordId) [order]
  | shipped {order} (offered : Offered config order)
      (stamped : config.shipmentTimestamp.isSome = true) :
      SellerHistory (.awaitingReceipt order.recordId (shipmentId order.recordId config.lotRef))
        [order]
  | delivered {order receipt} (offered : Offered config order)
      (stamped : config.shipmentTimestamp.isSome = true)
      (received : Receipted (shipmentId order.recordId config.lotRef) receipt) :
      SellerHistory (.delivered order.recordId receipt.recordId) [order, receipt]
  | disputed {order receipt reason} :
      SellerHistory (.disputed order.recordId receipt.recordId reason) [order, receipt]

inductive BuyerHistory (rfqId : String) : PurchaseFlowState → List CanonicalRecord → Prop
  | start : BuyerHistory rfqId (.rfqIssued rfqId) []
  | quoted {quoteId} : BuyerHistory rfqId (.quoteAccepted rfqId quoteId) []
  | ordered : BuyerHistory rfqId (.awaitingShipment s!"po:{rfqId}") []
  | delivered {shipment receiptRef} (shipped : Shipped config s!"po:{rfqId}" shipment) :
      BuyerHistory rfqId (.delivered s!"po:{rfqId}" receiptRef) [shipment]
  | disputed {shipment receiptRef reason} :
      BuyerHistory rfqId (.disputed s!"po:{rfqId}" receiptRef reason) [shipment]

variable {config} {rfqId : String} {taken : List CanonicalRecord} {records : Set CanonicalRecord}

lemma SellerHistory.step (h : SellerHistory config state taken)
    (step : SellerStep config state event result) (goes : result.completed = false) :
    SellerHistory config result.state (taken ++ event.records) := by
  cases step with
  | accept offered =>
    cases h
    exact .accepted offered
  | ship stamped =>
    cases h with
    | accepted offered => exact .shipped offered (by simp [stamped])
  | stay late =>
    cases h with
    | accepted offered => exact .accepted offered
  | receive received =>
    cases h with
    | shipped offered stamped => exact .delivered offered stamped received
  | closing step =>
    cases step with
    | dispute =>
      cases h
      exact .disputed
    | settle => simp at goes
    | resolve => simp at goes

lemma BuyerHistory.step (h : BuyerHistory config rfqId state taken)
    (step : BuyerStep config state event result) (goes : result.completed = false) :
    BuyerHistory config rfqId result.state (taken ++ event.records) := by
  cases step with
  | quote =>
    cases h
    exact .quoted
  | commit =>
    cases h
    exact .ordered
  | receive shipped =>
    cases h
    exact .delivered shipped
  | closing step =>
    cases step with
    | dispute =>
      cases h
      exact .disputed
    | settle => simp at goes
    | resolve => simp at goes

/-- A seller's state tells which records it took. -/
lemma sellerHistory_of_reached
    (reached : (sellerFlow config).Reached .awaitingPurchaseOrder records state taken) :
    SellerHistory config state taken := by
  obtain ⟨events, -, reached⟩ := reached_iff.mp reached
  have h := (sellerFlow config).consumed_induction .awaitingPurchaseOrder
    (@SellerHistory.start config) events fun _ _ _ _ _ h applied goes =>
      h.step ((sellerFlow_tryApply config).mp applied) goes
  rwa [reached] at h

lemma buyerHistory_of_reached
    (reached : (buyerFlow config).Reached (.rfqIssued rfqId) records state taken) :
    BuyerHistory config rfqId state taken := by
  obtain ⟨events, -, reached⟩ := reached_iff.mp reached
  have h := (buyerFlow config).consumed_induction (.rfqIssued rfqId)
    (@BuyerHistory.start config rfqId) events fun _ _ _ _ _ h applied goes =>
      h.step ((buyerFlow_tryApply config).mp applied) goes
  rwa [reached] at h

/-- A purchase order that names the parties is the counterparty's on the configured terms, a receipt
for a shipment of such an order is the counterparty's, and a shipment with the parties, the lot and
the beginning of an id for the buyer's order is the counterparty's for that order. -/
structure HonestRecords (config : PurchaseFlowConfig) (rfqId : String)
    (records : Set CanonicalRecord) : Prop where
  orders : ∀ order ∈ records, Offered config order → Agreed config order
  receipts : config.shipmentTimestamp.isSome = true →
    ∀ order ∈ records, Offered config order → ∀ receipt ∈ records,
      Receipted (shipmentId order.recordId config.lotRef) receipt →
        receipt.issuer = config.counterparty
  shipments : ∀ shipment ∈ records, Shipped config s!"po:{rfqId}" shipment →
    OwnShipment config s!"po:{rfqId}" shipment

lemma sellerFlow_consume_order {order : CanonicalRecord} (offered : Offered config order) :
    (sellerFlow config).consume .awaitingPurchaseOrder (none, []) (.recordCommitted order) =
      (some (.poAccepted order.recordId), [order]) :=
  consume_of_tryApply ((sellerFlow_tryApply config).mpr (.accept offered)) rfl rfl rfl _

lemma sellerFlow_reaches_accepted {order : CanonicalRecord} (committed : order ∈ records)
    (offered : Offered config order) :
    (sellerFlow config).Reached .awaitingPurchaseOrder records (.poAccepted order.recordId)
      [order] :=
  reached_iff.mpr ⟨[.recordCommitted order], by simpa using committed,
    sellerFlow_consume_order offered⟩

lemma sellerFlow_reaches_delivered {order receipt : CanonicalRecord}
    (committed : order ∈ records) (returned : receipt ∈ records)
    (offered : Offered config order) (stamped : config.shipmentTimestamp.isSome = true)
    (received : Receipted (shipmentId order.recordId config.lotRef) receipt) :
    (sellerFlow config).Reached .awaitingPurchaseOrder records
      (.delivered order.recordId receipt.recordId) [order, receipt] := by
  obtain ⟨occurredAt, stamped⟩ := Option.isSome_iff_exists.mp stamped
  have ship : (sellerFlow config).consume .awaitingPurchaseOrder
      (some (.poAccepted order.recordId), [order]) (.woken "ship") =
      (some (.awaitingReceipt order.recordId (shipmentId order.recordId config.lotRef)), [order]) :=
    consume_of_tryApply ((sellerFlow_tryApply config).mpr (.ship stamped)) rfl rfl rfl _
  have receive : (sellerFlow config).consume .awaitingPurchaseOrder
      (some (.awaitingReceipt order.recordId (shipmentId order.recordId config.lotRef)), [order])
      (.recordCommitted receipt) =
      (some (.delivered order.recordId receipt.recordId), [order, receipt]) :=
    consume_of_tryApply ((sellerFlow_tryApply config).mpr (.receive received)) rfl rfl rfl _
  refine reached_iff.mpr ⟨[.recordCommitted order, .woken "ship", .recordCommitted receipt], ?_, ?_⟩
  · intro record sent
    have either : record = order ∨ record = receipt := by simpa using sent
    rcases either with rfl | rfl <;> assumption
  · simp only [consumed, foldl_cons, foldl_nil, sellerFlow_consume_order offered, ship, receive]

lemma buyerFlow_reaches_delivered {shipment : CanonicalRecord} (committed : shipment ∈ records)
    (shipped : Shipped config s!"po:{rfqId}" shipment) :
    (buyerFlow config).Reached (.rfqIssued rfqId) records
      (.delivered s!"po:{rfqId}" s!"receipt:{shipment.recordId}") [shipment] := by
  have begins : startsWith quoteAcceptedPrefix quoteAcceptedPrefix = true := by decide
  have quote : (buyerFlow config).consume (.rfqIssued rfqId) (none, [])
      (.woken quoteAcceptedPrefix) = (some (.quoteAccepted rfqId
        (textAfter quoteAcceptedPrefix quoteAcceptedPrefix)), []) :=
    consume_of_tryApply ((buyerFlow_tryApply config).mpr (.quote begins)) rfl rfl rfl _
  have commit (quoteId : String) : (buyerFlow config).consume (.rfqIssued rfqId)
      (some (.quoteAccepted rfqId quoteId), []) (.woken "commit-po") =
      (some (.awaitingShipment s!"po:{rfqId}"), []) :=
    consume_of_tryApply ((buyerFlow_tryApply config).mpr .commit) rfl rfl rfl _
  have receive : (buyerFlow config).consume (.rfqIssued rfqId)
      (some (.awaitingShipment s!"po:{rfqId}"), []) (.recordCommitted shipment) =
      (some (.delivered s!"po:{rfqId}" s!"receipt:{shipment.recordId}"), [shipment]) :=
    consume_of_tryApply ((buyerFlow_tryApply config).mpr (.receive shipped)) rfl rfl rfl _
  refine reached_iff.mpr
    ⟨[.woken quoteAcceptedPrefix, .woken "commit-po", .recordCommitted shipment],
      by simpa using committed, ?_⟩
  simp only [consumed, foldl_cons, foldl_nil, quote, commit, receive]

/-- Purchase flows rest on the counterparty's own records and terms, whatever is committed, exactly
where the records leave no room for others. -/
theorem purchase_flows_authentic_iff (config : PurchaseFlowConfig) (rfqId : String)
    (records : Set CanonicalRecord) :
    ((∀ state taken, (sellerFlow config).Reached .awaitingPurchaseOrder records state taken →
        SellerAuthentic config state taken) ∧
      (∀ state taken, (buyerFlow config).Reached (.rfqIssued rfqId) records state taken →
        BuyerAuthentic config rfqId state taken)) ↔
    HonestRecords config rfqId records := by
  constructor
  · rintro ⟨seller, buyer⟩
    refine ⟨?_, ?_, ?_⟩
    · intro order committed offered
      obtain ⟨order', same, agreed⟩ :=
        (seller _ _ (sellerFlow_reaches_accepted committed offered)).accepted _ rfl
      exact singleton_inj.mp same ▸ agreed
    · intro stamped order committed offered receipt returned received
      have reached := sellerFlow_reaches_delivered committed returned offered stamped received
      obtain ⟨order', receipt', same, -, issuer⟩ := (seller _ _ reached).delivered _ _ rfl
      obtain ⟨-, rfl⟩ : order = order' ∧ receipt = receipt' := by simpa using same
      exact issuer
    · intro shipment committed shipped
      obtain ⟨shipment', same, own⟩ :=
        buyer _ _ (buyerFlow_reaches_delivered committed shipped) _ _ rfl
      exact singleton_inj.mp same ▸ own
  · intro honest
    refine ⟨fun state taken reached => ?_, fun state taken reached => ?_⟩
    · have member := reached.mem
      refine ⟨?_, ?_⟩
      · rintro poRef rfl
        cases sellerHistory_of_reached reached with
        | accepted offered => exact ⟨_, rfl, honest.orders _ (member _ (by simp)) offered⟩
      · rintro poRef receiptRef rfl
        cases sellerHistory_of_reached reached with
        | delivered offered stamped received =>
          exact ⟨_, _, rfl, honest.orders _ (member _ (by simp)) offered,
            honest.receipts stamped _ (member _ (by simp)) offered _ (member _ (by simp)) received⟩
    · rintro poRef receiptRef rfl
      have member := reached.mem
      cases buyerHistory_of_reached reached with
      | delivered shipped => exact ⟨_, rfl, honest.shipments _ (member _ (by simp)) shipped⟩

def sellerDeal : PurchaseFlowConfig :=
  ⟨"seller", "buyer", "SKU-1", 10, "EUR", "lot-1", "r1", 100, "2026-01-01"⟩

def buyerDeal : PurchaseFlowConfig :=
  ⟨"buyer", "seller", "SKU-1", 10, "EUR", "lot-1", "r1", 100, "2026-01-01"⟩

/-- Another organization's order in the buyer's name, for other goods. -/
def forgedOrder : CanonicalRecord :=
  .new "po:x" 1 "purchase_order" [("buyer_id", .string "buyer"), ("currency", .string "USD"),
    ("product_id", .string "SKU-9"), ("quantity", .number (.posInt 1)),
    ("seller_id", .string "seller")] "mallory"

def forgedReceipt : CanonicalRecord :=
  .new "receipt:x" 2 "delivery_receipt" [("received_at", .string "2026-01-01"),
    ("receiver_id", .string "buyer"), ("shipment_ref", .string "shipment:po:x:lot-1")] "mallory"

/-- Another organization's shipment in the seller's name; its id names order `po:r1:x`. -/
def forgedShipment : CanonicalRecord :=
  .new "shipment:po:r1:x:lot-1" 3 "shipment" [("from_org", .string "seller"),
    ("lot_ref", .string "lot-1"), ("to_org", .string "buyer")] "mallory"

/-- The seller's flow is taken to `PoAccepted` and `Delivered`, and the buyer's to `Delivered`, by
records of a third organization. -/
theorem purchase_flows_forged :
    ((sellerFlow sellerDeal).Reached .awaitingPurchaseOrder {forgedOrder, forgedReceipt}
        (.poAccepted "po:x") [forgedOrder] ∧
      (sellerFlow sellerDeal).Reached .awaitingPurchaseOrder {forgedOrder, forgedReceipt}
        (.delivered "po:x" "receipt:x") [forgedOrder, forgedReceipt] ∧
      forgedOrder.issuer = "mallory" ∧ forgedOrder.text "product_id" = some "SKU-9" ∧
      forgedReceipt.issuer = "mallory" ∧
      ¬SellerAuthentic sellerDeal (.poAccepted "po:x") [forgedOrder]) ∧
    (buyerFlow buyerDeal).Reached (.rfqIssued "r1") {forgedShipment}
      (.delivered "po:r1" "receipt:shipment:po:r1:x:lot-1") [forgedShipment] ∧
    forgedShipment.issuer = "mallory" ∧
    forgedShipment.recordId = shipmentId "po:r1:x" "lot-1" ∧
    ¬BuyerAuthentic buyerDeal "r1" (.delivered "po:r1" "receipt:shipment:po:r1:x:lot-1")
      [forgedShipment] := by
  have offered : Offered sellerDeal forgedOrder := ⟨rfl, rfl, rfl⟩
  have received : Receipted (shipmentId forgedOrder.recordId sellerDeal.lotRef) forgedReceipt :=
    ⟨rfl, by decide⟩
  have delivered := @buyerFlow_reaches_delivered buyerDeal "r1" {forgedShipment} forgedShipment rfl
    ⟨rfl, rfl, rfl, rfl, by decide⟩
  rw [show toString "po:" ++ toString "r1" = "po:r1" by decide,
    show toString "receipt:" ++ toString forgedShipment.recordId =
      "receipt:shipment:po:r1:x:lot-1" by decide] at delivered
  have ordered : forgedOrder ∈ ({forgedOrder, forgedReceipt} : Set CanonicalRecord) := .inl rfl
  have returned : forgedReceipt ∈ ({forgedOrder, forgedReceipt} : Set CanonicalRecord) := .inr rfl
  refine ⟨⟨sellerFlow_reaches_accepted ordered offered,
    sellerFlow_reaches_delivered ordered returned offered rfl received, rfl, rfl, rfl, ?_⟩,
    delivered, rfl, by decide, ?_⟩
  · intro authentic
    obtain ⟨order, same, agreed⟩ := authentic.accepted _ rfl
    obtain rfl := singleton_inj.mp same
    exact absurd agreed.issuer (by decide)
  · intro authentic
    obtain ⟨shipment, same, own⟩ := authentic _ _ rfl
    obtain rfl := singleton_inj.mp same
    exact absurd own.issuer (by decide)

end GlassChain
