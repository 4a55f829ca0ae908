import GlassChain.Contracts.Engine
import GlassChain.Library.Calls

/-!
# Budgets

Contracts are registered, paused, resumed and cancelled while offers come in, in any order, from an
engine without contracts on. What a contract has purchased is what its returned executions add up to
and stays within its budget; every execution follows its order; and nothing is returned for a
contract that is cancelled, paused or out of budget.
-/

namespace GlassChain

open Library Option

inductive ContractCall where
  | register (definition : SmartContractDef)
  | pause (id : String)
  | resume (id : String)
  | cancel (id : String)
  | offer (clock : String → Nat) (offer : SupplyOffer) (offerTxId : String)

def withoutTransactions (result : ContractEngine × Except ContractError Unit) :
    ContractEngine × Except ContractError (List Transaction) :=
  (result.1, result.2.map fun _ => [])

def transactionsOf (answer : Except ContractError (List Transaction)) : List Transaction :=
  answer.toOption.getD []

lemma withoutTransactions_quiet (result : ContractEngine × Except ContractError Unit) :
    transactionsOf (withoutTransactions result).2 = [] := by
  obtain ⟨_, _ | _⟩ := result <;> rfl

namespace ContractEngine

def call (X : Externals) (J : OfferJson) (E : ContractEngine) :
    ContractCall → ContractEngine × Except ContractError (List Transaction)
  | .register definition => withoutTransactions (E.registerContract definition)
  | .pause id => withoutTransactions (E.pauseContract id)
  | .resume id => withoutTransactions (E.resumeContract id)
  | .cancel id => withoutTransactions (E.cancelContract id)
  | .offer clock offer offerTxId =>
    let evaluated := E.evaluateSupplyOffer X J clock offer offerTxId
    (evaluated.1, .ok (purchases evaluated.2))

def fresh (executor : Option ExecutionProvider) : ContractEngine := { new with executor := executor }

@[simp]
lemma getContract_fresh (executor : Option ExecutionProvider) (id : String) :
    (fresh executor).getContract id = none := by
  simp [fresh, new, getContract]

def ran (X : Externals) (J : OfferJson) (executor : Option ExecutionProvider)
    (calls : List ContractCall) : ContractEngine :=
  after (call X J) (fresh executor) calls

end ContractEngine

def ContractEngine.issued (X : Externals) (J : OfferJson) (executor : Option ExecutionProvider)
    (calls : List ContractCall) : List Transaction :=
  (Library.returned (call X J) (fresh executor) calls).flatMap transactionsOf

def spent (id : String) (txs : List Transaction) : Nat :=
  ((executionsOf id txs).map ContractExecution.quantity).sum

lemma spent_append (id : String) (a b : List Transaction) :
    spent id (a ++ b) = spent id a + spent id b := by
  simp [spent]

def ContractCall.effect (X : Externals) (J : OfferJson) (executor : Option ExecutionProvider)
    (id : String) (c : Contract) : ContractCall → Contract
  | .register _ => c
  | .pause target => if target = id ∧ c.isActive = true then { c with status := .paused } else c
  | .resume target =>
    if target = id ∧ c.status = .paused then { c with status := .active } else c
  | .cancel target => if target = id then { c with status := .cancelled } else c
  | .offer clock supply offerTxId => (c.evaluate X J executor clock supply offerTxId).1

namespace Contract

variable {X : Externals} {J : OfferJson} {executor : Option ExecutionProvider}
  {clock : String → Nat} {offer : SupplyOffer} {offerTxId : String} {c : Contract}

/-- An iteration adds what it orders, within the budget. -/
theorem evaluate_quantity (X : Externals) (J : OfferJson) (executor : Option ExecutionProvider)
    (clock : String → Nat) (offer : SupplyOffer) (offerTxId : String)
    (range : c.conditions.maxQuantity < 2 ^ 64)
    (within : c.quantityPurchased ≤ c.conditions.maxQuantity) :
    (c.evaluate X J executor clock offer offerTxId).1.quantityPurchased = c.quantityPurchased +
        spent c.id (purchases (c.evaluate X J executor clock offer offerTxId).2) ∧
      (c.evaluate X J executor clock offer offerTxId).1.quantityPurchased ≤
        c.conditions.maxQuantity := by
  rcases evaluate_cases X J executor clock offer offerTxId c with
    ⟨same, none⟩ | ⟨-, closed, none⟩ | ⟨plan, -, prepared, -, bought⟩
  · rw [same, none]
    exact ⟨rfl, within⟩
  · rw [closed, none]
    exact ⟨rfl, within⟩
  · have plans := plans_of_preparePurchase prepared
    obtain ⟨execution, quantity, added⟩ := plans.executionsOf
    have bounded := plans.within
    simp only [remaining] at bounded
    have booked : (c.book plan.quantity).quantityPurchased = c.quantityPurchased + plan.quantity :=
      Nat.mod_eq_of_lt (by omega)
    have paid : spent c.id (purchases [.purchased c.definition offer offerTxId plan.purchaseOrder,
        .purchased c.definition offer offerTxId plan.execution]) = plan.quantity := by
      rw [spent, show purchases _ = [plan.purchaseOrder, plan.execution] from rfl, added]
      simp [quantity]
    rw [bought, purchases_append, gate_purchases, List.nil_append, paid, booked]
    exact ⟨rfl, by omega⟩

lemma evaluate_inactive (inactive : c.isActive = false) :
    (c.evaluate X J executor clock offer offerTxId).1 = c := by
  simp [evaluate, inactive]

end Contract

namespace ContractEngine

variable {X : Externals} {J : OfferJson} {executor : Option ExecutionProvider} {E : ContractEngine}
  {id : String} {c : Contract}

/-- A call changes each contract on its own. -/
lemma getContract_call (known : E.getContract id = some c) (k : ContractCall) :
    (E.call X J k).1.getContract id = some (k.effect X J E.executor id c) := by
  cases k with
  | register d =>
    simp [call, withoutTransactions, registerContract_fst, getContract_loadFromLedger, known,
      ContractCall.effect]
  | offer clock offer offerTxId =>
    simp [call, getContract_evaluateSupplyOffer, known, ContractCall.effect]
  | pause target =>
    simp only [call, withoutTransactions, pauseContract, ContractCall.effect]
    by_cases own : target = id
    · subst own
      cases active : c.isActive <;> simp [known, active, getContract_setStatus]
    · cases other : E.getContract target with
      | none => simp [known, own]
      | some d => cases active : d.isActive <;> simp [known, own, active, getContract_setStatus]
  | resume target =>
    simp only [call, withoutTransactions, resumeContract, ContractCall.effect]
    by_cases own : target = id
    · subst own
      by_cases paused : c.status = .paused <;> simp [known, paused, getContract_setStatus]
    · cases other : E.getContract target with
      | none => simp [known, own]
      | some d => by_cases paused : d.status = .paused <;>
          simp [known, own, paused, getContract_setStatus]
  | cancel target =>
    simp only [call, withoutTransactions, cancelContract, ContractCall.effect]
    by_cases own : target = id
    · subst own
      simp [known, getContract_setStatus]
    · cases other : E.getContract target <;> simp [known, own, getContract_setStatus]

/-- A contract appears by its registration only. -/
theorem getContract_call_none (unknown : E.getContract id = none) (k : ContractCall)
    (found : (E.call X J k).1.getContract id = some c) :
    ∃ d, k = .register d ∧ c = .new d := by
  cases k with
  | register d =>
    simp only [call, withoutTransactions, registerContract_fst, getContract_loadFromLedger, unknown,
      none_or, ite_none_right_eq_some, Option.some.injEq] at found
    exact ⟨d, rfl, found.2.symm⟩
  | offer clock offer offerTxId =>
    simp [call, getContract_evaluateSupplyOffer, unknown] at found
  | pause target | resume target | cancel target =>
    simp only [call, withoutTransactions, pauseContract, resumeContract, cancelContract] at found
    exfalso
    split at found
    · simp [unknown] at found
    · first
      | (split at found <;> simp [getContract_setStatus, unknown] at found)
      | simp [getContract_setStatus, unknown] at found

lemma spent_call (k : ContractCall) : spent id (transactionsOf (E.call X J k).2) =
    match E.getContract id, k with
    | some c, .offer clock offer offerTxId =>
      spent id (purchases (c.evaluate X J E.executor clock offer offerTxId).2)
    | _, _ => 0 := by
  cases k with
  | offer clock offer offerTxId =>
    simp only [call, transactionsOf, Except.toOption, getD_some, spent,
      executionsOf_evaluateSupplyOffer]
    cases E.getContract id <;> rfl
  | register | pause | resume | cancel =>
    simp only [call, withoutTransactions_quiet]
    cases E.getContract id <;> rfl

/-- Only offers buy, and only for contracts the engine has. -/
lemma mem_call {k : ContractCall} {tx : Transaction}
    (member : tx ∈ transactionsOf (E.call X J k).2) : ∃ clock offer offerTxId id c,
      k = .offer clock offer offerTxId ∧ E.getContract id = some c ∧
      tx ∈ purchases (c.evaluate X J E.executor clock offer offerTxId).2 := by
  cases k with
  | offer clock offer offerTxId =>
    simp only [call, transactionsOf, Except.toOption, getD_some, purchases,
      List.mem_filterMap, mem_evaluateSupplyOffer] at member
    obtain ⟨event, ⟨id, c, known, happened⟩, bought⟩ := member
    exact ⟨clock, offer, offerTxId, id, c, rfl, known, List.mem_filterMap.mpr ⟨event, happened, bought⟩⟩
  | register | pause | resume | cancel => simp [call, withoutTransactions_quiet] at member

end ContractEngine

def Paired (txs : List Transaction) : Prop :=
  ∀ (before : List Transaction) (tx : Transaction) (after : List Transaction)
    (execution : ContractExecution), txs = before ++ tx :: after →
    tx.kind = .contractExecution execution →
    ∃ (front : List Transaction) (order : Transaction) (terms : PurchaseOrder),
      before = front ++ [order] ∧ order.kind = .purchaseOrder terms ∧
      order.id = execution.purchaseOrderTxId ∧ terms.quantity = execution.quantity ∧
      terms.contractId = some execution.contractId

namespace Paired

lemma nil : Paired [] := by
  intro before tx after execution cut
  simp at cut

lemma append {a b : List Transaction} (first : Paired a) (second : Paired b) : Paired (a ++ b) := by
  intro before tx after execution cut isExecution
  rcases List.append_eq_append_iff.mp cut with ⟨middle, rfl, rest⟩ | ⟨middle, rfl, rest⟩
  · obtain ⟨front, order, terms, rfl, found⟩ := second middle tx after execution rest isExecution
    exact ⟨a ++ front, order, terms, by simp, found⟩
  · cases middle with
    | nil =>
      obtain ⟨front, order, terms, impossible, -⟩ :=
        second [] tx after execution (by simpa using rest.symm) isExecution
      simp at impossible
    | cons head middle =>
      cases rest
      exact first before tx middle execution rfl isExecution

lemma generated (clock : String → Nat) (c : Contract) (offer : SupplyOffer) (offerTxId : String) :
    Paired (c.generated clock offer offerTxId) := by
  intro before tx after execution cut isExecution
  rcases before with _ | ⟨order, _ | ⟨second, before⟩⟩
  · cases cut
    cases isExecution
  · obtain ⟨rfl, rest⟩ := List.cons.inj cut
    cases rest
    cases isExecution
    exact ⟨[], _, c.orderFor offer, rfl, rfl, rfl, rfl, rfl⟩
  · simp [Contract.generated] at cut

lemma purchases {X : Externals} {J : OfferJson} {clock : String → Nat} (E : ContractEngine)
    (offer : SupplyOffer) (offerTxId : String) :
    Paired (GlassChain.purchases (E.evaluateSupplyOffer X J clock offer offerTxId).2) := by
  simp only [ContractEngine.evaluateSupplyOffer]
  induction E.contracts.toList with
  | nil => exact nil
  | cons entry entries ih =>
    rw [List.flatMap_cons, purchases_append]
    refine append ?_ ih
    rcases Contract.purchases_evaluate_generated X J E.executor clock offer offerTxId entry.2 with
      none | ⟨-, bought⟩
    · rw [none]
      exact nil
    · rw [bought]
      exact generated clock entry.2 offer offerTxId

end Paired

namespace ContractEngine

variable {X : Externals} {J : OfferJson} {executor : Option ExecutionProvider} {E : ContractEngine}
  {id : String} {calls : List ContractCall}

lemma ran_concat (k : ContractCall) :
    ran X J executor (calls ++ [k]) = ((ran X J executor calls).call X J k).1 :=
  after_concat _ calls k

lemma issued_concat (k : ContractCall) : issued X J executor (calls ++ [k]) =
    issued X J executor calls ++ transactionsOf ((ran X J executor calls).call X J k).2 := by
  simp [issued, ran]

/-- What the contracts purchased is what the transactions spend. -/
structure Balanced (E : ContractEngine) (txs : List Transaction) : Prop where
  known : ∀ id c, E.getContract id = some c → c.quantityPurchased = spent id txs ∧
    c.quantityPurchased ≤ c.conditions.maxQuantity ∧ c.conditions.maxQuantity < 2 ^ 64
  unknown : ∀ id, E.getContract id = none → spent id txs = 0

/-- A call books what it buys. -/
lemma Balanced.call {txs : List Transaction} (balanced : E.Balanced txs) {k : ContractCall}
    (range : ∀ d, k = .register d → d.conditions.maxQuantity < 2 ^ 64) :
    (E.call X J k).1.Balanced (txs ++ transactionsOf (E.call X J k).2) := by
  refine ⟨fun id c found => ?_, fun id missing => ?_⟩
  · rw [spent_append, spent_call]
    cases before : E.getContract id with
    | none =>
      obtain ⟨d, rfl, rfl⟩ := getContract_call_none before k found
      exact ⟨by simp [balanced.unknown id before, Contract.new], Nat.zero_le _, range d rfl⟩
    | some old =>
      rw [getContract_call before] at found
      cases found
      obtain ⟨purchased, within, small⟩ := balanced.known id old before
      cases k with
      | offer clock supply offerTxId =>
        have own : old.id = id := E.keyed id old before
        obtain ⟨added, bounded⟩ :=
          old.evaluate_quantity X J E.executor clock supply offerTxId small within
        have terms : (ContractCall.effect X J E.executor id old
            (.offer clock supply offerTxId)).conditions = old.conditions :=
          congrArg SmartContractDef.conditions (Contract.evaluate_definition ..)
        rw [terms]
        refine ⟨?_, bounded, small⟩
        rw [← purchased, ← own]
        exact added
      | register d => exact ⟨purchased, within, small⟩
      | pause target | resume target | cancel target =>
        simp only [ContractCall.effect]
        split <;> exact ⟨purchased, within, small⟩
  · have before : E.getContract id = none := by
      cases old : E.getContract id with
      | none => rfl
      | some c =>
        rw [getContract_call old] at missing
        cases missing
    simp [spent_append, spent_call, balanced.unknown id before, before]

lemma balanced_ran (range : ∀ d, .register d ∈ calls → d.conditions.maxQuantity < 2 ^ 64) :
    (ran X J executor calls).Balanced (issued X J executor calls) := by
  induction calls using List.reverseRecOn with
  | nil => exact ⟨by simp [ran], fun _ _ => rfl⟩
  | append_singleton calls k ih =>
    rw [ran_concat, issued_concat]
    refine (ih fun d member => range d (by simp [member])).call fun d last => ?_
    exact range d (by simp [last])

lemma paired_issued : Paired (issued X J executor calls) := by
  induction calls using List.reverseRecOn with
  | nil => exact .nil
  | append_singleton calls k ih =>
    rw [issued_concat]
    refine ih.append ?_
    cases k with
    | offer clock supply offerTxId => exact .purchases _ supply offerTxId
    | register | pause | resume | cancel =>
      simp only [call, withoutTransactions_quiet]
      exact .nil

def WasCancelled (X : Externals) (J : OfferJson) (executor : Option ExecutionProvider)
    (calls : List ContractCall) (id : String) : Prop :=
  ∃ front back, calls = front ++ .cancel id :: back ∧
    (ran X J executor front).getContract id ≠ none

def IsPaused (X : Externals) (J : OfferJson) (executor : Option ExecutionProvider)
    (calls : List ContractCall) (id : String) : Prop :=
  ∃ front back c, calls = front ++ .pause id :: back ∧
    (ran X J executor front).getContract id = some c ∧ c.isActive = true ∧ .resume id ∉ back

/-- A contract that a call paused or cancelled stays inactive unless it is resumed from a pause. -/
theorem status_after {P : ContractStatus → Prop} (front back : List ContractCall)
    (k : ContractCall) {c : Contract} (known : (ran X J executor front).getContract id = some c)
    (now : P (k.effect X J (ran X J executor front).executor id c).status) (cancelled : P .cancelled)
    (closed : ∀ s, P s → s ≠ .active) (unresumed : .resume id ∈ back → ¬P .paused) :
    ∃ c, (ran X J executor (front ++ k :: back)).getContract id = some c ∧ P c.status := by
  have cut : front ++ k :: back = front ++ [k] ++ back := by simp
  rw [cut, ran, after_append, after_concat]
  refine after_keeps (I := fun E : ContractEngine => ∃ c, E.getContract id = some c ∧ P c.status)
    (fun E k among => ?_) ⟨_, getContract_call known _, now⟩
  rintro ⟨c, known, held⟩
  refine ⟨_, getContract_call known k, ?_⟩
  have inactive : c.isActive = false := by simpa [Contract.isActive] using closed _ held
  cases k with
  | offer clock supply offerTxId => rwa [ContractCall.effect, Contract.evaluate_inactive inactive]
  | register d => exact held
  | pause target => simpa [ContractCall.effect, inactive] using held
  | resume target =>
    simp only [ContractCall.effect]
    split
    · rename_i resumed
      obtain ⟨rfl, paused⟩ := resumed
      exact absurd (paused ▸ held) (unresumed among)
    · exact held
  | cancel target =>
    simp only [ContractCall.effect]
    split
    · exact cancelled
    · exact held

/-- No call reactivates a cancelled contract. -/
lemma inactive_of_wasCancelled (cancelled : WasCancelled X J executor calls id) :
    ∃ c, (ran X J executor calls).getContract id = some c ∧ c.isActive = false := by
  obtain ⟨front, back, rfl, present⟩ := cancelled
  obtain ⟨c, known⟩ := ne_none_iff_exists'.mp present
  obtain ⟨d, after, closed⟩ := status_after (P := (· = .cancelled)) front back (.cancel id) known
    (by simp [ContractCall.effect]) rfl (by simp) (by simp)
  exact ⟨d, after, by simp [Contract.isActive, closed]⟩

lemma inactive_of_isPaused (paused : IsPaused X J executor calls id) :
    ∃ c, (ran X J executor calls).getContract id = some c ∧ c.isActive = false := by
  obtain ⟨front, back, c, rfl, known, active, unresumed⟩ := paused
  obtain ⟨d, after, closed⟩ := status_after (P := (· ≠ .active)) front back (.pause id) known
    (by simp [ContractCall.effect, active]) (by simp) (by simp)
    fun resumed => absurd resumed unresumed
  exact ⟨d, after, by simpa [Contract.isActive] using closed⟩

/-- What a call returns for a contract is its purchase. -/
theorem generated_of_mem {k : ContractCall} {tx : Transaction}
    (member : tx ∈ transactionsOf (E.call X J k).2) (ref : tx.contractRef = some id) :
    ∃ clock offer offerTxId c, k = .offer clock offer offerTxId ∧ E.getContract id = some c ∧
      c.takes offer = true ∧ tx ∈ c.generated clock offer offerTxId := by
  obtain ⟨clock, offer, offerTxId, key, c, rfl, known, bought⟩ := mem_call member
  have own : key = id := by
    rw [Contract.contractRef_of_mem bought, E.keyed key c known] at ref
    exact Option.some.inj ref
  subst own
  refine ⟨clock, offer, offerTxId, c, rfl, known, ?_⟩
  rcases Contract.purchases_evaluate_generated X J E.executor clock offer offerTxId c with
    none | ⟨takes, generated⟩
  · rw [none] at bought
    cases bought
  · exact ⟨takes, generated ▸ bought⟩

end ContractEngine

open ContractEngine in
/-- After any calls, with `u64` budgets: a contract purchased what its executions add up to, within
its budget; every execution follows its order; and the next call returns none for a contract that
was cancelled, is paused, or has spent its budget. -/
theorem contract_budgets_conserved (X : Externals) (J : OfferJson)
    (executor : Option ExecutionProvider) (calls : List ContractCall)
    (range : ∀ d, .register d ∈ calls → d.conditions.maxQuantity < 2 ^ 64) :
    let E := ran X J executor calls
    let txs := issued X J executor calls
    (∀ id c, E.getContract id = some c →
      c.quantityPurchased = spent id txs ∧ c.quantityPurchased ≤ c.conditions.maxQuantity) ∧
    Paired txs ∧
    ∀ k, ∀ tx ∈ transactionsOf (E.call X J k).2, ∀ id, tx.contractRef = some id →
      ¬WasCancelled X J executor calls id ∧ ¬IsPaused X J executor calls id ∧
      ∃ c, E.getContract id = some c ∧ spent id txs < c.conditions.maxQuantity := by
  intro E txs
  have balanced : E.Balanced txs := balanced_ran range
  refine ⟨fun id c known => ?_, paired_issued, fun k tx member id ref => ?_⟩
  · obtain ⟨purchased, within, -⟩ := balanced.known id c known
    exact ⟨purchased, within⟩
  · obtain ⟨clock, offer, offerTxId, c, -, known, takes, -⟩ := generated_of_mem member ref
    simp only [Contract.takes, Bool.and_eq_true, bne_iff_ne] at takes
    obtain ⟨⟨⟨active, -⟩, -⟩, left⟩ := takes
    have opposed (closed : ∃ d, E.getContract id = some d ∧ d.isActive = false) : False := by
      obtain ⟨d, same, inactive⟩ := closed
      obtain rfl := Option.some.inj (known.symm.trans same)
      rw [inactive] at active
      cases active
    refine ⟨fun cancelled => opposed (inactive_of_wasCancelled cancelled),
      fun paused => opposed (inactive_of_isPaused paused), c, known, ?_⟩
    · obtain ⟨purchased, -, -⟩ := balanced.known id c known
      simp only [Contract.remaining] at left
      omega

/-- A contract for a hundred units is offered sixty, twice, and is paused and resumed in between. -/
theorem contract_budgets_sample :
    let definition : SmartContractDef :=
      ⟨"contract-1", "buyer-1", "SKU-1", ⟨1500, 10, 100, 14, none, "USD", true⟩, none⟩
    let offer : SupplyOffer := ⟨"SKU-1", "Widget", "seller-1", 60, 1250, 7, "USD"⟩
    let calls : List ContractCall := [.register definition, .offer (fun _ => 0) offer "offer-1",
      .pause "contract-1", .offer (fun _ => 0) offer "offer-2", .resume "contract-1",
      .offer (fun _ => 0) offer "offer-3"]
    let E := ContractEngine.ran (.plain 0) (fun _ => .ok []) none calls
    let txs := ContractEngine.issued (.plain 0) (fun _ => .ok []) none calls
    (E.getContract "contract-1").map Contract.quantityPurchased = some 100 ∧
      spent "contract-1" txs = 100 ∧ Paired txs ∧ txs.length = 4 := by
  intro definition offer calls E txs
  have range (d : SmartContractDef) (listed : .register d ∈ calls) :
      d.conditions.maxQuantity < 2 ^ 64 := by
    obtain rfl : d = definition := by simpa [calls] using listed
    decide
  obtain ⟨purchased, paired, -⟩ :=
    contract_budgets_conserved (.plain 0) (fun _ => .ok []) none calls range
  have bought : (E.getContract "contract-1").map Contract.quantityPurchased = some 100 := by
    decide +kernel
  obtain ⟨c, known, quantity⟩ := map_eq_some_iff.mp bought
  exact ⟨bought, (purchased _ c known).1.symm.trans quantity, paired, by decide +kernel⟩

end GlassChain
