import GlassChain.Contracts.Engine

/-!
# A rebuilt engine against the live one

`rebuild_from_chain` registers every definition of the chain and then books every execution. The
engine it yields has the counters of the engine whose executions the chain holds, whatever the order
in which they were committed. A contract's status may differ: the live engine also closes a contract
when it finds the budget spent, the rebuilt one only on booking. Both then order nothing.
-/

namespace GlassChain

open Library ContractEngine List Contract Transaction

/-- A call on the engine; each offer comes with the clock readings of its evaluation. -/
inductive EngineCall where
  | register (definition : SmartContractDef)
  | offer (clock : String → Nat) (offer : SupplyOffer) (offerTxId : String)

def EngineCall.run (X : Externals) (J : OfferJson) (s : ContractEngine × List Transaction) :
    EngineCall → ContractEngine × List Transaction
  | .register definition => ((s.1.registerContract definition).1, s.2)
  | .offer clock supply offerTxId =>
    let evaluated := s.1.evaluateSupplyOffer X J clock supply offerTxId
    (evaluated.1, s.2 ++ purchases evaluated.2)

def runEngine (X : Externals) (J : OfferJson) (calls : List EngineCall) :
    ContractEngine × List Transaction :=
  calls.foldl (EngineCall.run X J) (.new, [])

/-- The definitions a run registers, refused ones included, in order. -/
def registrations (calls : List EngineCall) : List SmartContractDef :=
  calls.filterMap fun call => match call with
    | .register definition => some definition
    | .offer _ _ _ => none

/-- The transactions the engine returns for each offer of a sequence; the clock readings are indexed
by the number of offers still to come. -/
def serve (X : Externals) (J : OfferJson) (clock : Nat → String → Nat) :
    ContractEngine → List (SupplyOffer × String) → List (List Transaction)
  | _, [] => []
  | E, (offer, offerTxId) :: rest =>
    let evaluated := E.evaluateSupplyOffer X J (clock rest.length) offer offerTxId
    purchases evaluated.2 :: serve X J clock evaluated.1 rest

variable (chain : List Block)

def chainTxs : List Transaction := chain.flatMap Block.transactions

def Transaction.isExecution (tx : Transaction) : Bool :=
  match tx.kind with
  | .contractExecution _ => true
  | _ => false

def creations (txs : List Transaction) : List SmartContractDef :=
  txs.filterMap fun tx => match tx.kind with
    | .contractCreation definition => some definition
    | _ => none

/-- The chain holds exactly the creations of a run, those of one identifier in order, and exactly
the executions the run generated, in any arrangement. -/
structure HoldsRun (chain : List Block) (calls : List EngineCall) (generated : List Transaction) :
    Prop where
  creations : ∀ id, (creations (chainTxs chain)).filter (fun d => d.contractId = id) =
    (registrations calls).filter fun d => d.contractId = id
  executions : ((chainTxs chain).filter Transaction.isExecution).Perm
    (generated.filter Transaction.isExecution)

lemma executionsOf_filter (id : String) (txs : List Transaction) :
    executionsOf id (txs.filter Transaction.isExecution) = executionsOf id txs := by
  unfold executionsOf
  rw [filterMap_filter]
  congr 1
  funext tx
  cases kind : tx.kind <;> simp [isExecution, kind]

lemma HoldsRun.executionsOf {chain : List Block} {calls : List EngineCall}
    {generated : List Transaction} (holds : HoldsRun chain calls generated) (id : String) :
    (executionsOf id (chainTxs chain)).Perm (executionsOf id generated) := by
  rw [← executionsOf_filter id (chainTxs chain), ← executionsOf_filter id generated]
  exact holds.executions.filterMap _

/-- A contract of definition `d` that booked the given executions: their quantities and number,
within the budget, and closed only when the budget is spent. -/
structure Booked (c : Contract) (d : SmartContractDef) (executions : List ContractExecution) :
    Prop where
  definition : c.definition = d
  quantity : c.quantityPurchased = (executions.map ContractExecution.quantity).sum
  count : c.executionCount = executions.length % 2 ^ 32
  within : c.quantityPurchased ≤ d.conditions.maxQuantity
  closed : c.isActive = false → d.conditions.maxQuantity ≤ c.quantityPurchased

namespace Booked

variable {c : Contract} {d : SmartContractDef} {executions : List ContractExecution}

lemma new (d : SmartContractDef) : Booked (.new d) d [] :=
  ⟨rfl, rfl, rfl, Nat.zero_le _, by simp [Contract.new, isActive]⟩

/-- Booking an execution the budget covers; a `u64` holds every budget, so nothing wraps. -/
theorem book (booked : Booked c d executions) (range : d.conditions.maxQuantity < 2 ^ 64)
    (execution : ContractExecution)
    (covered : c.quantityPurchased + execution.quantity ≤ d.conditions.maxQuantity) :
    Booked (c.book execution.quantity) d (executions ++ [execution]) := by
  have purchased : (c.book execution.quantity).quantityPurchased =
      c.quantityPurchased + execution.quantity := Nat.mod_eq_of_lt (by omega)
  refine ⟨booked.definition, ?_, ?_, ?_, ?_⟩
  · simp [purchased, booked.quantity]
  · simp [Contract.book, booked.count, Nat.add_mod]
  · rwa [purchased]
  · intro inactive
    by_cases spent : d.conditions.maxQuantity ≤ (c.book execution.quantity).quantityPurchased
    · exact spent
    · have still : (c.book execution.quantity).isActive = c.isActive := by
        rw [← booked.definition] at spent
        exact congrArg (· == ContractStatus.active) (if_neg spent)
      have before := booked.closed (still ▸ inactive)
      omega

lemma close (booked : Booked c d executions) (spent : c.remaining = 0) :
    Booked { c with status := .fulfilled } d executions := by
  refine ⟨booked.definition, booked.quantity, booked.count, booked.within, fun _ => ?_⟩
  rw [Contract.remaining, Contract.conditions, booked.definition] at spent
  simp only
  omega

lemma evaluate (booked : Booked c d executions) (range : d.conditions.maxQuantity < 2 ^ 64)
    (X : Externals) (J : OfferJson) (executor : Option ExecutionProvider) (clock : String → Nat)
    (offer : SupplyOffer) (offerTxId : String) :
    Booked (c.evaluate X J executor clock offer offerTxId).1 d (executions ++
      executionsOf c.id (purchases (c.evaluate X J executor clock offer offerTxId).2)) := by
  rcases evaluate_cases X J executor clock offer offerTxId c with
    ⟨same, none⟩ | ⟨spent, closed, none⟩ | ⟨plan, -, prepared, -, bought⟩
  · rw [same, none, executionsOf_nil, append_nil]
    exact booked
  · rw [closed, none, executionsOf_nil, append_nil]
    exact booked.close spent
  · have plans := plans_of_preparePurchase prepared
    obtain ⟨execution, quantity, added⟩ := plans.executionsOf
    have covered : c.quantityPurchased + execution.quantity ≤ d.conditions.maxQuantity := by
      have left := plans.within
      rw [Contract.remaining, Contract.conditions, booked.definition, ← quantity] at left
      have := booked.within
      omega
    have generated : executionsOf c.id (purchases
        ((c.gate X J executor offer offerTxId).1 ++
          [.purchased c.definition offer offerTxId plan.purchaseOrder,
            .purchased c.definition offer offerTxId plan.execution])) = [execution] := by
      rw [purchases_append, gate_purchases]
      exact added
    rw [bought, generated, ← quantity]
    exact booked.book range execution covered

/-- The replay of executions that together stay within the budget. -/
theorem replay (booked : Booked c d executions) (range : d.conditions.maxQuantity < 2 ^ 64)
    (more : List ContractExecution) (covered : c.quantityPurchased +
      (more.map ContractExecution.quantity).sum ≤ d.conditions.maxQuantity) :
    Booked (more.foldl (fun c execution => c.book execution.quantity) c) d
      (executions ++ more) := by
  induction more generalizing c executions with
  | nil => simpa using booked
  | cons execution more ih =>
    simp only [map_cons, sum_cons] at covered
    have next := booked.book range execution (by omega)
    have purchased : (c.book execution.quantity).quantityPurchased =
        c.quantityPurchased + execution.quantity := Nat.mod_eq_of_lt (by omega)
    simpa using ih next (by omega)

end Booked

/-- The engine has the first definition of every identifier, with the executions generated for it
booked. -/
def EngineBooks (E : ContractEngine) (definitions : List SmartContractDef)
    (executions : String → List ContractExecution) : Prop :=
  ∀ id, match definitions.find? fun d => d.contractId = id with
    | some d => ∃ c, E.getContract id = some c ∧ Booked c d (executions id)
    | none => E.getContract id = none ∧ executions id = []

lemma EngineBooks.load {E : ContractEngine} {definitions : List SmartContractDef}
    {executions : String → List ContractExecution} (books : EngineBooks E definitions executions)
    (d : SmartContractDef) : EngineBooks (E.loadFromLedger d) (definitions ++ [d]) executions := by
  intro id
  have before := books id
  rw [find?_append, getContract_loadFromLedger]
  cases known : definitions.find? fun d => d.contractId = id with
  | some first =>
    rw [known] at before
    obtain ⟨c, found, booked⟩ := before
    exact ⟨c, by simp [found], booked⟩
  | none =>
    rw [known] at before
    obtain ⟨absent, nothing⟩ := before
    by_cases own : d.contractId = id
    · simp only [own, absent, nothing, Option.none_or, decide_true, find?_cons_of_pos]
      exact ⟨.new d, rfl, .new d⟩
    · simp [own, absent, nothing]

lemma EngineBooks.evaluate {X : Externals} {J : OfferJson} {clock : String → Nat}
    {E : ContractEngine} {definitions : List SmartContractDef} {generated : List Transaction}
    (books : EngineBooks E definitions fun id => executionsOf id generated)
    (range : ∀ d ∈ definitions, d.conditions.maxQuantity < 2 ^ 64) (offer : SupplyOffer)
    (offerTxId : String) :
    EngineBooks (E.evaluateSupplyOffer X J clock offer offerTxId).1 definitions fun id =>
      executionsOf id
        (generated ++ purchases (E.evaluateSupplyOffer X J clock offer offerTxId).2) := by
  intro id
  have before := books id
  simp only [executionsOf_append, getContract_evaluateSupplyOffer, executionsOf_evaluateSupplyOffer]
  cases known : definitions.find? fun d => d.contractId = id with
  | some d =>
    rw [known] at before
    obtain ⟨c, found, booked⟩ := before
    have own : c.id = id := E.keyed id c found
    have next := booked.evaluate (range d (mem_of_find?_eq_some known)) X J E.executor clock
      offer offerTxId
    rw [own] at next
    simp only [found]
    exact ⟨_, rfl, next⟩
  | none =>
    rw [known] at before
    obtain ⟨absent, nothing⟩ := before
    simp [absent, nothing]

/-- After a run the engine has booked the executions it generated. -/
lemma runEngine_books (X : Externals) (J : OfferJson) (calls : List EngineCall)
    (range : ∀ d ∈ registrations calls, d.conditions.maxQuantity < 2 ^ 64) :
    EngineBooks (runEngine X J calls).1 (registrations calls) fun id =>
      executionsOf id (runEngine X J calls).2 := by
  induction calls using List.reverseRecOn with
  | nil =>
    intro id
    simp [registrations, runEngine, ContractEngine.new, getContract]
  | append_singleton calls call ih =>
    have ran : runEngine X J (calls ++ [call]) = call.run X J (runEngine X J calls) := by
      simp [runEngine]
    rw [ran]
    cases call with
    | register d =>
      have grown : registrations (calls ++ [.register d]) = registrations calls ++ [d] := by
        simp [registrations]
      rw [grown] at range ⊢
      simp only [EngineCall.run, registerContract_fst]
      exact EngineBooks.load (ih fun d member => range d (by simp [member])) d
    | offer clock offer offerTxId =>
      have same : registrations (calls ++ [.offer clock offer offerTxId]) = registrations calls := by
        simp [registrations]
      rw [same] at range ⊢
      exact EngineBooks.evaluate (ih range) range offer offerTxId

lemma runEngine_executor (X : Externals) (J : OfferJson) (calls : List EngineCall) :
    (runEngine X J calls).1.executor = none := by
  induction calls using List.reverseRecOn with
  | nil => rfl
  | append_singleton calls call ih =>
    have ran : runEngine X J (calls ++ [call]) = call.run X J (runEngine X J calls) := by
      simp [runEngine]
    rw [ran]
    cases call with
    | register d => simpa [EngineCall.run, registerContract_fst] using ih
    | offer clock offer offerTxId => exact ih

lemma loadCreation_foldl_get (txs : List Transaction) (E : ContractEngine) (id : String) :
    (txs.foldl loadCreation E).getContract id = (E.getContract id).or
      (((creations txs).find? fun d => d.contractId = id).map .new) := by
  induction txs generalizing E with
  | nil => simp [creations]
  | cons tx txs ih =>
    rw [foldl_cons, ih]
    cases kind : tx.kind with
    | contractCreation d =>
      have head : creations (tx :: txs) = d :: creations txs := by simp [creations, kind]
      rw [head, loadCreation, kind]
      simp only [getContract_loadFromLedger]
      by_cases own : d.contractId = id
      · simp [own]
      · simp [own]
    | _ => simp [creations, kind, loadCreation]

lemma replayExecution_foldl_get (txs : List Transaction) (E : ContractEngine) (id : String) :
    (txs.foldl replayExecution E).getContract id = (E.getContract id).map
      ((executionsOf id txs).foldl fun c execution => c.book execution.quantity) := by
  induction txs generalizing E with
  | nil => simp
  | cons tx txs ih =>
    rw [foldl_cons, ih]
    cases kind : tx.kind with
    | contractExecution execution =>
      simp only [replayExecution, kind, getContract,
        Std.TreeMap.getElem?_modify, Std.compare_eq_iff_eq]
      by_cases own : execution.contractId = id
      · subst own
        simp [executionsOf, kind, Function.comp_def]
      · simp [executionsOf, kind, own]
    | _ => simp [executionsOf, kind, replayExecution]

lemma rebuildFromChain_get (id : String) :
    (rebuildFromChain chain).getContract id =
      ((creations (chainTxs chain)).find? fun d => d.contractId = id).map fun d =>
        (executionsOf id (chainTxs chain)).foldl (fun c execution => c.book execution.quantity)
          (.new d) := by
  simp only [rebuildFromChain]
  rw [replayExecution_foldl_get, loadCreation_foldl_get]
  simp [ContractEngine.new, getContract, chainTxs, Function.comp_def]

lemma rebuildFromChain_executor : (rebuildFromChain chain).executor = none := by
  have keeps (f : ContractEngine → Transaction → ContractEngine)
      (same : ∀ E tx, (f E tx).executor = E.executor) (txs : List Transaction)
      (E : ContractEngine) : (txs.foldl f E).executor = E.executor := by
    induction txs generalizing E with
    | nil => rfl
    | cons tx txs ih => rw [foldl_cons, ih, same]
  have loads (E : ContractEngine) (tx : Transaction) :
      (E.loadCreation tx).executor = E.executor := by
    unfold loadCreation
    split
    · exact executor_loadFromLedger _
    · rfl
  have replays (E : ContractEngine) (tx : Transaction) :
      (E.replayExecution tx).executor = E.executor := by
    unfold replayExecution
    split <;> rfl
  simp only [rebuildFromChain]
  rw [keeps _ replays, keeps _ loads]
  rfl

/-- Same definition and counters; one may be closed where the other is not once the budget is
spent. -/
structure Alike (c d : Contract) : Prop where
  definition : c.definition = d.definition
  quantity : c.quantityPurchased = d.quantityPurchased
  count : c.executionCount = d.executionCount
  activity : c.isActive = d.isActive ∨ c.remaining = 0

def Transaction.untimed (tx : Transaction) : Transaction := { tx with timestamp := 0 }

section Simulation

variable {X : Externals} {J : OfferJson} {clock clock' : String → Nat} {offer : SupplyOffer}
  {offerTxId : String} {c d : Contract}

lemma Booked.alike {s : SmartContractDef} {a b : List ContractExecution} (live : Booked c s a)
    (rebuilt : Booked d s b) (perm : b.Perm a) : Alike d c := by
  have quantity : d.quantityPurchased = c.quantityPurchased := by
    rw [rebuilt.quantity, live.quantity]
    exact (perm.map _).sum_eq
  refine ⟨rebuilt.definition.trans live.definition.symm, quantity, ?_, ?_⟩
  · rw [rebuilt.count, live.count, perm.length_eq]
  · have closed : c.isActive = false ∨ d.isActive = false → d.remaining = 0 := by
      have bound := rebuilt.closed
      have bound' := live.closed
      rw [Contract.remaining, Contract.conditions, rebuilt.definition]
      rintro (inactive | inactive)
      · have := bound' inactive
        omega
      · have := bound inactive
        omega
    cases one : d.isActive <;> cases other : c.isActive <;> simp_all

/-- A contract whose budget is spent orders nothing and keeps its counters. -/
theorem Contract.evaluate_spent (X : Externals) (J : OfferJson) (clock : String → Nat)
    (offer : SupplyOffer) (offerTxId : String) (spent : c.remaining = 0) :
    (c.evaluate X J none clock offer offerTxId).1.definition = c.definition ∧
      (c.evaluate X J none clock offer offerTxId).1.quantityPurchased = c.quantityPurchased ∧
      (c.evaluate X J none clock offer offerTxId).1.executionCount = c.executionCount ∧
      purchases (c.evaluate X J none clock offer offerTxId).2 = [] := by
  rcases evaluate_cases X J none clock offer offerTxId c with
    ⟨same, none⟩ | ⟨-, closed, none⟩ | ⟨plan, -, prepared, -, -⟩
  · rw [same]
    exact ⟨rfl, rfl, rfl, none⟩
  · rw [closed]
    exact ⟨rfl, rfl, rfl, none⟩
  · simp [Contract.preparePurchase, spent] at prepared

lemma Alike.remaining (alike : Alike c d) : c.remaining = d.remaining := by
  rw [Contract.remaining, Contract.remaining, Contract.conditions, Contract.conditions,
    alike.definition, alike.quantity]

/-- Plans of alike contracts differ at most in the clock readings. -/
theorem Alike.preparePurchase (alike : Alike c d) (clock clock' : String → Nat)
    (offer : SupplyOffer) (offerTxId : String) :
    c.preparePurchase clock offer offerTxId = none ∧
        d.preparePurchase clock' offer offerTxId = none ∨
      ∃ plan plan', c.preparePurchase clock offer offerTxId = some plan ∧
        d.preparePurchase clock' offer offerTxId = some plan' ∧ plan.quantity = plan'.quantity ∧
        plan.purchaseOrder.untimed = plan'.purchaseOrder.untimed ∧
        plan.execution.untimed = plan'.execution.untimed := by
  unfold Contract.preparePurchase
  rw [alike.remaining]
  by_cases spent : d.remaining = 0
  · simp [spent]
  · refine .inr ⟨_, _, if_neg spent, if_neg spent, ?_, ?_, ?_⟩ <;>
      simp [untimed, withId, orderedQuantity, Contract.id,
        Contract.conditions, alike.remaining, alike.definition]

lemma Alike.book (alike : Alike c d) (active : c.isActive = d.isActive) (quantity : Nat) :
    Alike (c.book quantity) (d.book quantity) := by
  have purchased : (c.book quantity).quantityPurchased = (d.book quantity).quantityPurchased := by
    simp [Contract.book, alike.quantity]
  refine ⟨alike.definition, purchased, by simp [Contract.book, alike.count], .inl ?_⟩
  unfold isActive at active ⊢
  rw [book_status, book_status, purchased, Contract.conditions,
    Contract.conditions, alike.definition]
  split
  · rfl
  · exact active

def Contract.triggered (c : Contract) (offer : SupplyOffer) : Bool :=
  c.isActive && c.offerMatches offer && c.conditions.autoExecute

lemma Contract.evaluate_ungated (X : Externals) (J : OfferJson) (clock : String → Nat)
    (offer : SupplyOffer) (offerTxId : String) (c : Contract) :
    c.evaluate X J none clock offer offerTxId =
      if c.triggered offer then
        match c.preparePurchase clock offer offerTxId with
        | none => ({ c with status := .fulfilled }, [])
        | some plan => (c.book plan.quantity,
            [.purchased c.definition offer offerTxId plan.purchaseOrder,
              .purchased c.definition offer offerTxId plan.execution])
      else (c, []) := by
  have ungated : c.gate X J none offer offerTxId = ([], true) := by
    unfold Contract.gate
    split <;> simp_all
  unfold evaluate Contract.triggered
  cases c.isActive <;> cases c.offerMatches offer <;> cases c.conditions.autoExecute <;>
    simp only [ungated] <;> rfl

lemma Alike.triggered (alike : Alike c d) (active : c.isActive = d.isActive) :
    c.triggered offer = d.triggered offer := by
  unfold Contract.triggered Contract.offerMatches Contract.conditions
  rw [active, alike.definition]

/-- Alike contracts stay alike and generate the same for an offer, up to the clock. -/
theorem Alike.evaluate (alike : Alike c d) : Alike (c.evaluate X J none clock offer offerTxId).1
        (d.evaluate X J none clock' offer offerTxId).1 ∧
      (purchases (c.evaluate X J none clock offer offerTxId).2).map Transaction.untimed =
        (purchases (d.evaluate X J none clock' offer offerTxId).2).map Transaction.untimed := by
  rcases alike.activity with active | spent
  · simp only [evaluate_ungated, alike.triggered active]
    cases d.triggered offer with
    | false => exact ⟨alike, rfl⟩
    | true =>
      obtain ⟨none, none'⟩ | ⟨plan, plan', some, some', same, order, execution⟩ :=
        alike.preparePurchase clock clock' offer offerTxId
      · simp only [none, none', if_true]
        exact ⟨⟨alike.definition, alike.quantity, alike.count, .inl rfl⟩, trivial⟩
      · simp only [some, some', same, if_true]
        exact ⟨alike.book active _, by simp [purchases, order, execution]⟩
  · -- both contracts have spent their budget, whatever their status
    obtain ⟨definition, quantity, count, nothing⟩ := evaluate_spent X J clock offer offerTxId spent
    obtain ⟨definition', quantity', count', nothing'⟩ :=
      evaluate_spent X J clock' offer offerTxId (alike.remaining ▸ spent)
    refine ⟨⟨?_, ?_, ?_, .inr ?_⟩, by rw [nothing, nothing']⟩
    · rw [definition, definition', alike.definition]
    · rw [quantity, quantity', alike.quantity]
    · rw [count, count', alike.count]
    · rw [Contract.remaining, Contract.conditions, definition, quantity]
      exact spent

end Simulation

/-- Engines without an executor whose contracts are pairwise alike. -/
structure EnginesAlike (E F : ContractEngine) : Prop where
  executors : E.executor = none ∧ F.executor = none
  contracts : ∀ id, Option.Rel Alike (E.getContract id) (F.getContract id)

/-- Engines that are alike answer an offer alike, up to timestamps. -/
lemma EnginesAlike.evaluate {X : Externals} {J : OfferJson} {E F : ContractEngine}
    (alike : EnginesAlike E F) (clock clock' : String → Nat) (offer : SupplyOffer)
    (offerTxId : String) :
    EnginesAlike (E.evaluateSupplyOffer X J clock offer offerTxId).1
        (F.evaluateSupplyOffer X J clock' offer offerTxId).1 ∧
      (purchases (E.evaluateSupplyOffer X J clock offer offerTxId).2).map Transaction.untimed =
        (purchases (F.evaluateSupplyOffer X J clock' offer offerTxId).2).map
          Transaction.untimed := by
  constructor
  · refine ⟨alike.executors, fun id => ?_⟩
    have related := alike.contracts id
    rw [getContract_evaluateSupplyOffer,
      getContract_evaluateSupplyOffer, alike.executors.1, alike.executors.2]
    generalize E.getContract id = c at related ⊢
    generalize F.getContract id = d at related ⊢
    cases related with
    | none => exact .none
    | some related => exact .some related.evaluate.1
  · have collected (clock : String → Nat) (G : ContractEngine) (bare : G.executor = none) :
        (purchases (G.evaluateSupplyOffer X J clock offer offerTxId).2).map Transaction.untimed =
          G.contracts.toList.flatMap fun entry =>
            (purchases (entry.2.evaluate X J none clock offer offerTxId).2).map
              Transaction.untimed := by
      simp only [evaluateSupplyOffer, purchases, filterMap_flatMap, map_flatMap, bare]
    rw [collected clock E alike.executors.1, collected clock' F alike.executors.2]
    refine flatMap_eq_of_lookups
      (f := fun c : Contract => (purchases (c.evaluate X J none clock offer offerTxId).2).map
        Transaction.untimed)
      (g := fun c : Contract => (purchases (c.evaluate X J none clock' offer offerTxId).2).map
        Transaction.untimed) fun id => ?_
    have related : Option.Rel Alike E.contracts[id]? F.contracts[id]? := alike.contracts id
    generalize E.contracts[id]? = c at related ⊢
    generalize F.contracts[id]? = d at related ⊢
    cases related with
    | none => rfl
    | some related => exact congrArg some related.evaluate.2

lemma EnginesAlike.serve {X : Externals} {J : OfferJson} {clock clock' : Nat → String → Nat}
    {E F : ContractEngine} (alike : EnginesAlike E F) (offers : List (SupplyOffer × String)) :
    (serve X J clock E offers).map (List.map Transaction.untimed) =
      (serve X J clock' F offers).map (List.map Transaction.untimed) := by
  induction offers generalizing E F with
  | nil => rfl
  | cons entry rest ih =>
    obtain ⟨next, same⟩ := alike.evaluate (X := X) (J := J) (clock rest.length)
      (clock' rest.length) entry.1 entry.2
    simp only [GlassChain.serve, map_cons, same, ih next]

/-- The replay of a run's chain has contracts like the live ones. -/
lemma rebuilt_alike (X : Externals) (J : OfferJson) (calls : List EngineCall)
    (range : ∀ d ∈ registrations calls, d.conditions.maxQuantity < 2 ^ 64) {chain : List Block}
    (holds : HoldsRun chain calls (runEngine X J calls).2) :
    ∀ id, Option.Rel Alike ((rebuildFromChain chain).getContract id)
      ((runEngine X J calls).1.getContract id) := by
  intro id
  have live := runEngine_books X J calls range id
  have first : (creations (chainTxs chain)).find? (fun d => d.contractId = id) =
      (registrations calls).find? fun d => d.contractId = id := by
    rw [← head?_filter, ← head?_filter, holds.creations id]
  rw [rebuildFromChain_get, first]
  cases known : (registrations calls).find? fun d => d.contractId = id with
  | none =>
    rw [known] at live
    rw [live.1]
    exact .none
  | some d =>
    rw [known] at live
    obtain ⟨c, found, booked⟩ := live
    have perm := holds.executionsOf id
    have covered : (Contract.new d).quantityPurchased +
        ((executionsOf id (chainTxs chain)).map ContractExecution.quantity).sum ≤
          d.conditions.maxQuantity := by
      rw [(perm.map ContractExecution.quantity).sum_eq, ← booked.quantity]
      simpa [Contract.new] using booked.within
    have rebuilt := (Booked.new d).replay (range d (mem_of_find?_eq_some known)) _ covered
    rw [found]
    exact .some (booked.alike rebuilt (by simpa using perm))

/-- The engine rebuilt from a chain that holds a run has the definitions and counters of the engine
of the run, and answers every further sequence of offers with the same transactions, up to creation
times. -/
theorem rebuilt_engine_behaves_like_live (X : Externals) (J : OfferJson) (calls : List EngineCall)
    (range : ∀ d ∈ registrations calls, d.conditions.maxQuantity < 2 ^ 64) (chain : List Block)
    (holds : HoldsRun chain calls (runEngine X J calls).2) :
    (∀ id, ((rebuildFromChain chain).getContract id).map
        (fun c => (c.definition, c.quantityPurchased, c.executionCount)) =
      ((runEngine X J calls).1.getContract id).map
        fun c => (c.definition, c.quantityPurchased, c.executionCount)) ∧
    ∀ (clock clock' : Nat → String → Nat) (offers : List (SupplyOffer × String)),
      (serve X J clock (.rebuildFromChain chain) offers).map (List.map Transaction.untimed) =
        (serve X J clock' (runEngine X J calls).1 offers).map (List.map Transaction.untimed) := by
  have alike := rebuilt_alike X J calls range holds
  constructor
  · intro id
    have related := alike id
    generalize (rebuildFromChain chain).getContract id = c at related ⊢
    generalize (runEngine X J calls).1.getContract id = d at related ⊢
    cases related with
    | none => rfl
    | some related => simp [related.definition, related.quantity, related.count]
  · intro clock clock' offers
    exact EnginesAlike.serve ⟨⟨rebuildFromChain_executor chain, runEngine_executor X J calls⟩, alike⟩
      offers

/-! A contract for a hundred units, and an offer of sixty. -/

def sampleDefinition : SmartContractDef :=
  ⟨"contract-1", "buyer-1", "SKU-1", ⟨1500, 10, 100, 14, none, "USD", true⟩, none⟩

def sampleOffer : SupplyOffer := ⟨"SKU-1", "Widget", "seller-1", 60, 1250, 7, "USD"⟩

def sampleCalls : List EngineCall :=
  [.register sampleDefinition, .offer (fun _ => 0) sampleOffer "offer-1"]

def sampleOrderTx : Transaction :=
  ⟨"po:contract-1-offer-1", 0, .purchaseOrder
    ⟨"SKU-1", "buyer-1", "seller-1", 60, 1250, "USD", some "contract-1"⟩, []⟩

def sampleExecutionTx : Transaction :=
  ⟨"exec:contract-1-offer-1", 0, .contractExecution ⟨"contract-1", "po:contract-1-offer-1",
    "buyer-1", "seller-1", "SKU-1", 60, 75000, "USD"⟩, []⟩

def sampleChain : List Block :=
  [⟨0, 0, [sampleExecutionTx], [], "0", 0, "", none⟩,
    ⟨1, 0, [⟨"creation-1", 0, .contractCreation sampleDefinition, []⟩], [], "", 0, "", none⟩]

lemma sampleCalls_generated (X : Externals) (J : OfferJson) :
    (runEngine X J sampleCalls).2 = [sampleOrderTx, sampleExecutionTx] := rfl

lemma sampleChain_holds (X : Externals) (J : OfferJson) :
    HoldsRun sampleChain sampleCalls (runEngine X J sampleCalls).2 := by
  refine ⟨fun _ => rfl, ?_⟩
  rw [sampleCalls_generated]
  exact List.Perm.refl _

lemma sampleCalls_range : ∀ d ∈ registrations sampleCalls, d.conditions.maxQuantity < 2 ^ 64 := by
  simp [registrations, sampleCalls, sampleDefinition]

/-- The engine rebuilt from the sample chain has booked sixty units once, as the live one has, and
orders the forty that are left on the next offer of sixty. -/
theorem rebuilt_engine_sample :
    ((rebuildFromChain sampleChain).getContract "contract-1").map
        (fun c => (c.definition, c.quantityPurchased, c.executionCount)) =
      some (sampleDefinition, 60, 1) ∧
    (serve (.plain 0) (fun _ => .ok []) (fun _ _ => 5) (.rebuildFromChain sampleChain)
        [(sampleOffer, "offer-2")]).map (List.map Transaction.untimed) =
      [[⟨"po:contract-1-offer-2", 0, .purchaseOrder
          ⟨"SKU-1", "buyer-1", "seller-1", 40, 1250, "USD", some "contract-1"⟩, []⟩,
        ⟨"exec:contract-1-offer-2", 0, .contractExecution ⟨"contract-1", "po:contract-1-offer-2",
          "buyer-1", "seller-1", "SKU-1", 40, 50000, "USD"⟩, []⟩]] := by
  have alike := rebuilt_engine_behaves_like_live (.plain 0) (fun _ => .ok []) sampleCalls
    sampleCalls_range sampleChain (sampleChain_holds _ _)
  exact ⟨(alike.1 "contract-1").trans rfl, (alike.2 _ (fun _ _ => 0) _).trans rfl⟩

end GlassChain
