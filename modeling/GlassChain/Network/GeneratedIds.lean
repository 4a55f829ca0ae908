import GlassChain.Contracts.Budget
import GlassChain.Library.Joined
import GlassChain.Network.Mining
import GlassChain.Network.WatcherFold

/-!
# Ids of generated transactions

The engine names its transactions after the contract and the offer, the watcher after the trigger,
the product, the owner and a count kept for each trigger. Nothing is escaped, so that two contracts
or two triggers may give the same text; and the counts of a trigger start again from what a snapshot
held. The ledger takes a second transaction with an id it knows for a copy of the first.
-/

namespace GlassChain

open Library List InventoryTrigger WatcherService
open scoped List

/-- What the ids of a contract's transactions for an offer end with, -/
def pairText (contractId offerTxId : String) : String := s!"{contractId}-{offerTxId}"

/-- and what those of a trigger's orders contain. -/
def InventoryTrigger.text (t : InventoryTrigger) : String :=
  s!"{t.triggerId}:{t.productId}:{t.ownerId}"

def watcherTxId (t : InventoryTrigger) (count : Nat) : String := s!"watcher:{t.text}:{count}"

def purchaseTxId (execution : Bool) (contractId offerTxId : String) : String :=
  if execution then executionTxId contractId offerTxId else purchaseOrderTxId contractId offerTxId

lemma toList_pairText (c o : String) : (pairText c o).toList = c.toList ++ '-' :: o.toList := by
  simp [pairText, toString_text]

lemma pairText_left_inj {c c' o : String} : pairText c o = pairText c' o ↔ c = c' := by
  rw [← String.toList_inj, toList_pairText, toList_pairText, append_cancel_right_eq,
    String.toList_inj]

lemma pairText_right_inj {c o o' : String} : pairText c o = pairText c o' ↔ o = o' := by
  rw [← String.toList_inj, toList_pairText, toList_pairText, append_cancel_left_eq,
    cons_inj_right, String.toList_inj]

lemma purchaseTxId_inj {e e' : Bool} {c c' o o' : String}
    (same : purchaseTxId e c o = purchaseTxId e' c' o') : e = e' ∧ pairText c o = pairText c' o' := by
  cases e <;> cases e' <;> simp only [purchaseTxId, if_true, Bool.false_eq_true, if_false] at same
  · have texts := congrArg String.toList same
    simp only [toList_purchaseOrderTxId, append_assoc] at texts
    rw [← String.toList_inj, toList_pairText, toList_pairText]
    exact ⟨rfl, append_cancel_left texts⟩
  · exact absurd same.symm (executionTxId_ne_order _ _ _ _)
  · exact absurd same (executionTxId_ne_order _ _ _ _)
  · have texts := congrArg String.toList same
    simp only [toList_executionTxId, append_assoc] at texts
    rw [← String.toList_inj, toList_pairText, toList_pairText]
    exact ⟨rfl, append_cancel_left texts⟩

lemma toList_watcherTxId (t : InventoryTrigger) (n : Nat) : (watcherTxId t n).toList =
    "watcher:".toList ++ (t.text.toList ++ ':' :: (toString n).toList) := by
  simp [watcherTxId, toString_text]

/-- The count begins after the last separator. -/
theorem watcherTxId_inj {t t' : InventoryTrigger} {n n' : Nat}
    (same : watcherTxId t n = watcherTxId t' n') : t.text = t'.text ∧ n = n' := by
  have texts := congrArg String.toList same
  rw [toList_watcherTxId, toList_watcherTxId] at texts
  obtain ⟨triggers, counts⟩ := joined_inj_last (colon_notMem_toString n) (colon_notMem_toString n')
    (append_cancel_left texts)
  exact ⟨String.toList_inj.mp triggers, toString_inj.mp (String.toList_inj.mp counts)⟩

namespace InventoryTrigger

variable {t t' : InventoryTrigger}

lemma triggerId_eq_of_text (product : t.productId = t'.productId) (owner : t.ownerId = t'.ownerId)
    (same : t.text = t'.text) : t.triggerId = t'.triggerId := by
  have texts := congrArg String.toList same
  simp [text, toString_text, product, owner] at texts
  exact String.toList_inj.mp texts

lemma id_order {clock : String → Nat} {update : InventoryUpdate} (n : Nat)
    (product : t.productId = update.productId) (owner : t.ownerId = update.ownerId) :
    (t.order clock update n).id = watcherTxId t n := by
  simp [order, Transaction.withId, watcherTxId, text, product, owner, toString_text,
    String.append_assoc]

end InventoryTrigger

lemma purchaseTxId_ne_watcherTxId (e : Bool) (c offerTxId : String) (t : InventoryTrigger)
    (n : Nat) : purchaseTxId e c offerTxId ≠ watcherTxId t n := by
  intro same
  have texts := congrArg String.toList same
  cases e <;> simp [purchaseTxId, toList_executionTxId, toList_purchaseOrderTxId,
    toList_watcherTxId] at texts

def offerIds (calls : List ContractCall) : List String :=
  calls.filterMap fun k => match k with
    | .offer _ _ offerTxId => some offerTxId
    | _ => none

lemma Contract.ids_evaluate (X : Externals) (J : OfferJson) (executor : Option ExecutionProvider)
    (clock : String → Nat) (offer : SupplyOffer) (offerTxId : String) (c : Contract) :
    (purchases (c.evaluate X J executor clock offer offerTxId).2).map Transaction.id <+
      [purchaseTxId false c.id offerTxId, purchaseTxId true c.id offerTxId] := by
  rcases c.purchases_evaluate_generated X J executor clock offer offerTxId with
    none | ⟨-, generated⟩
  · simp [none]
  · rw [generated]
    exact List.Sublist.refl _

namespace ContractEngine

variable {X : Externals} {J : OfferJson} {executor : Option ExecutionProvider}
  {calls : List ContractCall} {E : ContractEngine}

def Registers (calls : List ContractCall) (id : String) : Prop :=
  ∃ d, .register d ∈ calls ∧ d.contractId = id

lemma Registers.mono {front : List ContractCall} {id : String} (registers : Registers front id)
    (sub : front <+: calls) : Registers calls id := by
  obtain ⟨d, listed, named⟩ := registers
  exact ⟨d, sub.subset listed, named⟩

lemma registers_of_getContract {id : String}
    (present : (ran X J executor calls).getContract id ≠ none) : Registers calls id := by
  induction calls using List.reverseRecOn with
  | nil => simp [ran] at present
  | append_singleton calls k ih =>
    by_cases before : (ran X J executor calls).getContract id = none
    · obtain ⟨c, known⟩ := Option.ne_none_iff_exists'.mp present
      rw [ran_concat] at known
      have own := (((ran X J executor calls).call X J k).1).keyed id c known
      obtain ⟨d, rfl, rfl⟩ := getContract_call_none before k known
      exact ⟨d, by simp, own⟩
    · exact (ih before).mono (prefix_append _ _)

/-- What is returned for an offer is named after it and a contract of the engine. -/
theorem id_of_mem_call {k : ContractCall} {tx : Transaction}
    (member : tx ∈ transactionsOf (E.call X J k).2) : ∃ clock offer offerTxId id e,
      k = .offer clock offer offerTxId ∧ E.getContract id ≠ none ∧
      tx.id = purchaseTxId e id offerTxId := by
  obtain ⟨clock, offer, offerTxId, id, c, rfl, known, bought⟩ := mem_call member
  have named := (c.ids_evaluate X J E.executor clock offer offerTxId).subset (mem_map_of_mem bought)
  rw [E.keyed id c known] at named
  rcases mem_pair.mp named with order | execution
  · exact ⟨clock, offer, offerTxId, id, false, rfl, by simp [known], order⟩
  · exact ⟨clock, offer, offerTxId, id, true, rfl, by simp [known], execution⟩

lemma id_of_mem_issued {tx : Transaction} (member : tx ∈ issued X J executor calls) :
    ∃ id offerTxId e, Registers calls id ∧ offerTxId ∈ offerIds calls ∧
      tx.id = purchaseTxId e id offerTxId := by
  induction calls using List.reverseRecOn with
  | nil => simp [issued, Library.returned] at member
  | append_singleton calls k ih =>
    have sub : calls <+: calls ++ [k] := prefix_append _ _
    rw [issued_concat, mem_append] at member
    rcases member with old | new
    · obtain ⟨id, offerTxId, e, registers, offered, spelled⟩ := ih old
      exact ⟨id, offerTxId, e, registers.mono sub, (sub.filterMap _).subset offered, spelled⟩
    · obtain ⟨clock, offer, offerTxId, id, e, rfl, present, spelled⟩ := id_of_mem_call new
      exact ⟨id, offerTxId, e, (registers_of_getContract present).mono sub, by simp [offerIds],
        spelled⟩

lemma nodup_call (k : ContractCall) : ((transactionsOf (E.call X J k).2).map Transaction.id).Nodup := by
  cases k with
  | register | pause | resume | cancel => simp [call, withoutTransactions_quiet]
  | offer clock offer offerTxId =>
    let ids (entry : String × Contract) : List String :=
      (purchases (entry.2.evaluate X J E.executor clock offer offerTxId).2).map Transaction.id
    have split (entries : List (String × Contract)) :
        (purchases (entries.flatMap fun entry =>
          (entry.2.evaluate X J E.executor clock offer offerTxId).2)).map Transaction.id =
            entries.flatMap ids := by
      induction entries with
      | nil => rfl
      | cons entry entries ih => simp [ih, ids]
    have named (entry : String × Contract) (listed : entry ∈ E.contracts.toList) : ids entry <+
          [purchaseTxId false entry.1 offerTxId, purchaseTxId true entry.1 offerTxId] := by
      have known := Std.TreeMap.mem_toList_iff_getElem?_eq_some.mp listed
      have texts := entry.2.ids_evaluate X J E.executor clock offer offerTxId
      rwa [E.keyed entry.1 entry.2 known] at texts
    simp only [call, transactionsOf, Except.toOption, Option.getD_some, evaluateSupplyOffer, split]
    rw [nodup_flatMap]
    constructor
    · intro entry listed
      refine (named entry listed).nodup ?_
      have apart : purchaseTxId false entry.1 offerTxId ≠ purchaseTxId true entry.1 offerTxId :=
        fun same => absurd (purchaseTxId_inj same).1 (by decide)
      simp [apart]
    · refine (Std.TreeMap.distinct_keys_toList (t := E.contracts)).imp_of_mem ?_
      intro a b listed listed' apart id mine theirs
      have keys : a.1 = b.1 := by
        rcases mem_pair.mp ((named a listed).subset mine) with rfl | rfl <;>
          rcases mem_pair.mp ((named b listed').subset theirs) with same | same <;>
          exact pairText_left_inj.mp (purchaseTxId_inj same).2
      exact apart (by rw [keys]; exact Std.ReflCmp.compare_self)

/-- Different pairs of a contract and an offer have different texts. -/
def PairsApart (calls : List ContractCall) : Prop :=
  ∀ id id', Registers calls id → Registers calls id' →
    ∀ offerTxId ∈ offerIds calls, ∀ offerTxId' ∈ offerIds calls,
      pairText id offerTxId = pairText id' offerTxId' → id = id'

lemma nodup_issued (distinct : (offerIds calls).Nodup) (pairs : PairsApart calls) :
    ((issued X J executor calls).map Transaction.id).Nodup := by
  induction calls using List.reverseRecOn with
  | nil => simp [issued, Library.returned]
  | append_singleton calls k ih =>
    have sub : calls <+: calls ++ [k] := prefix_append _ _
    have listed {offerTxId : String} (offered : offerTxId ∈ offerIds calls) :
        offerTxId ∈ offerIds (calls ++ [k]) := (sub.filterMap _).subset offered
    have before : PairsApart calls := fun id id' registers registers' o offered o' offered' =>
      pairs id id' (registers.mono sub) (registers'.mono sub) o (listed offered) o' (listed offered')
    have offers : offerIds (calls ++ [k]) = offerIds calls ++ offerIds [k] := filterMap_append
    rw [offers, nodup_append] at distinct
    rw [issued_concat, map_append, nodup_append]
    refine ⟨ih distinct.1 before, nodup_call k, ?_⟩
    intro first old second new
    obtain ⟨tx, member, rfl⟩ := mem_map.mp old
    obtain ⟨tx', member', rfl⟩ := mem_map.mp new
    obtain ⟨id, offerTxId, e, registers, offered, spelled⟩ := id_of_mem_issued member
    obtain ⟨clock, offer, offerTxId', id', e', rfl, present, spelled'⟩ := id_of_mem_call member'
    rw [spelled, spelled']
    intro same
    have texts := (purchaseTxId_inj same).2
    have own : offerTxId' ∈ offerIds [.offer clock offer offerTxId'] := by simp [offerIds]
    obtain rfl := pairs id id' (registers.mono sub) ((registers_of_getContract present).mono sub) _
      (listed offered) _ (offers ▸ mem_append_right _ own) texts
    exact distinct.2.2 offerTxId offered offerTxId' own (pairText_right_inj.mp texts)

end ContractEngine

def ordersOf (events : List WatcherEvent) : List Transaction :=
  events.filterMap fun event => match event with
    | .ordered _ _ tx => some tx
    | .gated _ => none

@[simp]
lemma ordersOf_append (a b : List WatcherEvent) : ordersOf (a ++ b) = ordersOf a ++ ordersOf b :=
  filterMap_append

lemma InventoryTrigger.ordersOf_gate (X : Externals) (executor : Option ExecutionProvider)
    (level : Int) (t : InventoryTrigger) : ordersOf (t.gate X executor level).1 = [] := by
  unfold gate
  split <;> rfl

namespace WatcherService

variable (X : Externals) (clock : String → Nat) (update : InventoryUpdate) (level : Int)
  {W : WatcherService}

lemma fire_counts (t : InventoryTrigger) :
    (W.fire X clock update level t).1.triggerFireCounts = Function.update W.triggerFireCounts
      t.triggerId ((W.triggerFireCounts t.triggerId + 1) % 2 ^ 64) := by
  simp only [fire]
  split <;> rfl

lemma ordersOf_fire (t : InventoryTrigger) : ordersOf (W.fire X clock update level t).2 <+
    [t.order clock update ((W.triggerFireCounts t.triggerId + 1) % 2 ^ 64)] := by
  have quiet := t.ordersOf_gate X W.executor level
  simp only [fire]
  split
  · next runs gated =>
    rw [gated] at quiet
    simp [quiet]
  · next runs gated =>
    rw [gated] at quiet
    rw [ordersOf_append, quiet]
    exact List.Sublist.refl _

/-- Triggers with different ids each take the next count of their own. -/
theorem fireAll_spec {ts : List InventoryTrigger} (apart : (ts.map triggerId).Nodup)
    (small : ∀ t ∈ ts, W.triggerFireCounts t.triggerId + 1 < 2 ^ 64) :
    (∀ id, (W.fireAll X clock update level ts).1.triggerFireCounts id =
      W.triggerFireCounts id + if id ∈ ts.map triggerId then 1 else 0) ∧
    ordersOf (W.fireAll X clock update level ts).2 <+
      ts.map fun t => t.order clock update (W.triggerFireCounts t.triggerId + 1) := by
  induction ts generalizing W with
  | nil => exact ⟨fun id => by simp [fireAll], List.Sublist.refl _⟩
  | cons t ts ih =>
    obtain ⟨alone, rest⟩ := nodup_cons.mp apart
    have next := Nat.mod_eq_of_lt (small t mem_cons_self)
    have moved := fire_counts X clock update level (W := W) t
    have others (t' : InventoryTrigger) (member : t' ∈ ts) :
        (W.fire X clock update level t).1.triggerFireCounts t'.triggerId =
          W.triggerFireCounts t'.triggerId := by
      rw [moved, Function.update_of_ne]
      exact fun same => alone (same ▸ mem_map_of_mem member)
    obtain ⟨counts, orders⟩ := ih (W := (W.fire X clock update level t).1) rest fun t' member => by
      rw [others t' member]
      exact small t' (mem_cons_of_mem t member)
    constructor
    · intro id
      rw [fireAll, counts, moved, next]
      by_cases here : id = t.triggerId
      · subst here
        simp [alone]
      · simp [here]
    · have first := ordersOf_fire X clock update level (W := W) t
      rw [next] at first
      rw [fireAll, ordersOf_append, map_cons, ← singleton_append]
      refine first.append (orders.trans ?_)
      rw [map_congr_left fun t' member => by rw [others t' member]]

/-- What an update does, if every trigger is registered under its own id. -/
theorem onInventoryUpdate_spec (keyed : ∀ key t, W.triggers.lookup key = some t → t.triggerId = key)
    (small : ∀ id, W.triggerFireCounts id + 1 < 2 ^ 64) :
    ∃ fired : List InventoryTrigger, (fired.map triggerId).Nodup ∧
      (∀ t ∈ fired, W.triggers.lookup t.triggerId = some t ∧ t.productId = update.productId ∧
        t.ownerId = update.ownerId) ∧
      (∀ id, (W.onInventoryUpdate X clock update).1.triggerFireCounts id = W.triggerFireCounts id +
        if id ∈ fired.map triggerId then 1 else 0) ∧
      ordersOf (W.onInventoryUpdate X clock update).2 <+
        fired.map fun t => t.order clock update (W.triggerFireCounts t.triggerId + 1) := by
  have own (t : InventoryTrigger) (member : t ∈ W.triggers.entries.map Sigma.snd) :
      W.triggers.lookup t.triggerId = some t := by
    obtain ⟨⟨key, t⟩, entry, rfl⟩ := mem_map.mp member
    have found : W.triggers.lookup key = some t := AList.mem_lookup_iff.mpr entry
    rwa [keyed key t found]
  have apart : ((W.triggers.entries.map Sigma.snd).map triggerId).Nodup := by
    have keys : (W.triggers.entries.map Sigma.snd).map triggerId =
        W.triggers.entries.map Sigma.fst := by
      rw [map_map]
      refine map_congr_left fun entry member => ?_
      exact keyed entry.1 entry.2 (AList.mem_lookup_iff.mpr member)
    rw [keys]
    exact W.triggers.nodupKeys
  refine ⟨_, (filter_sublist.map _).nodup apart, fun t member => ?_,
    fireAll_spec X clock update _ ((filter_sublist.map _).nodup apart) fun t _ => small t.triggerId⟩
  obtain ⟨listed, fires⟩ := mem_filter.mp member
  simp only [InventoryTrigger.fires, Bool.and_eq_true, beq_iff_eq] at fires
  exact ⟨own t listed, fires.1.1.2, fires.1.2⟩

end WatcherService

inductive WatcherCall where
  | setExecutor (executor : ExecutionProvider)
  | addTrigger (trigger : InventoryTrigger)
  | disableTrigger (triggerId : String)
  | enableTrigger (triggerId : String)
  | update (clock : String → Nat) (update : InventoryUpdate)
  | save
  | restart
  | restore

structure WatcherProcess where
  service : WatcherService
  snapshot : Option WatcherSnapshot

namespace WatcherProcess

def call (X : Externals) (P : WatcherProcess) : WatcherCall → WatcherProcess × List WatcherEvent
  | .setExecutor executor => ({ P with service := P.service.setExecutor executor }, [])
  | .addTrigger trigger => ({ P with service := P.service.addTrigger trigger }, [])
  | .disableTrigger triggerId => ({ P with service := P.service.disableTrigger triggerId }, [])
  | .enableTrigger triggerId => ({ P with service := P.service.enableTrigger triggerId }, [])
  | .update clock update =>
    let updated := P.service.onInventoryUpdate X clock update
    ({ P with service := updated.1 }, updated.2)
  | .save => ({ P with snapshot := some P.service.toSnapshot }, [])
  | .restart => ({ P with service := .new }, [])
  | .restore => match P.snapshot with
    | some snapshot => ({ P with service := P.service.applySnapshot snapshot }, [])
    | none => (P, [])

def ran (X : Externals) (calls : List WatcherCall) : WatcherProcess :=
  after (call X) ⟨.new, none⟩ calls

def issued (X : Externals) (calls : List WatcherCall) : List Transaction :=
  (Library.returned (call X) ⟨.new, none⟩ calls).flatMap ordersOf

def count (P : WatcherProcess) (id : String) : Nat := P.service.triggerFireCounts id

/-- A trigger of that name, product and owner was added. -/
def Adds (calls : List WatcherCall) (t : InventoryTrigger) : Prop :=
  ∃ added, .addTrigger added ∈ calls ∧ added.triggerId = t.triggerId ∧ added.text = t.text

def TriggersApart (calls : List WatcherCall) : Prop :=
  ∀ t t', .addTrigger t ∈ calls → .addTrigger t' ∈ calls → t.text = t'.text →
    t.triggerId = t'.triggerId

/-- Updates find every count at its highest: what a restart lost was restored before. -/
def CountsKept (X : Externals) (calls : List WatcherCall) : Prop :=
  ∀ front clock update, front ++ [.update clock update] <+: calls →
    ∀ early, early <+: front → ∀ id, (ran X early).count id ≤ (ran X front).count id

variable {X : Externals} {calls : List WatcherCall} {P : WatcherProcess}

lemma CountsKept.front {front : List WatcherCall} (kept : CountsKept X calls)
    (sub : front <+: calls) : CountsKept X front :=
  fun front' clock update sub' => kept front' clock update (sub'.trans sub)

lemma Adds.mono {front : List WatcherCall} {t : InventoryTrigger} (adds : Adds front t)
    (sub : front <+: calls) : Adds calls t := by
  obtain ⟨added, listed, named⟩ := adds
  exact ⟨added, sub.subset listed, named⟩

lemma TriggersApart.eq_of_text (apart : TriggersApart calls) {t t' : InventoryTrigger}
    (adds : Adds calls t) (adds' : Adds calls t') (same : t.text = t'.text) :
    t.triggerId = t'.triggerId := by
  obtain ⟨added, listed, named, spelled⟩ := adds
  obtain ⟨added', listed', named', spelled'⟩ := adds'
  have names := apart added added' listed listed' (spelled.trans (same.trans spelled'.symm))
  exact named.symm.trans (names.trans named')

/-- What the calls so far allow. -/
structure Within (calls : List WatcherCall) (P : WatcherProcess) : Prop where
  keyed : ∀ key t, P.service.triggers.lookup key = some t → t.triggerId = key ∧ Adds calls t
  counts : ∀ id, P.count id ≤ calls.length
  saved : ∀ snapshot, P.snapshot = some snapshot →
    ∀ id, snapshot.triggerFireCounts id ≤ calls.length

lemma Within.call (h : Within calls P) (few : calls.length + 1 < 2 ^ 64) (k : WatcherCall) :
    Within (calls ++ [k]) (P.call X k).1 := by
  have sub : calls <+: calls ++ [k] := prefix_append _ _
  have keyed (key : String) (t : InventoryTrigger) (found : P.service.triggers.lookup key = some t) :
      t.triggerId = key ∧ Adds (calls ++ [k]) t :=
    (h.keyed key t found).imp_right fun adds => adds.mono sub
  have counts (id : String) : P.count id ≤ (calls ++ [k]).length :=
    (h.counts id).trans sub.length_le
  have saved (snapshot : WatcherSnapshot) (held : P.snapshot = some snapshot) (id : String) :
      snapshot.triggerFireCounts id ≤ (calls ++ [k]).length :=
    (h.saved snapshot held id).trans sub.length_le
  have inserted (t : InventoryTrigger) (adds : Adds (calls ++ [k]) t) (key : String)
      (t' : InventoryTrigger)
      (found : (P.service.triggers.insert t.triggerId t).lookup key = some t') :
      t'.triggerId = key ∧ Adds (calls ++ [k]) t' := by
    by_cases here : key = t.triggerId
    · subst here
      obtain rfl : t = t' := by simpa using found
      exact ⟨rfl, adds⟩
    · exact keyed key t' (by rwa [AList.lookup_insert_ne here] at found)
  have switched (id : String) (active : Bool) :
      Within (calls ++ [k]) { P with service := P.service.setActive id active } := by
    unfold setActive
    split
    · next t found =>
      obtain ⟨rfl, adds⟩ := keyed id t found
      exact ⟨inserted { t with active := active } adds, counts, saved⟩
    · exact ⟨keyed, counts, saved⟩
  cases k with
  | setExecutor executor => exact ⟨keyed, counts, saved⟩
  | addTrigger t => exact ⟨inserted t ⟨t, by simp, rfl, rfl⟩, counts, saved⟩
  | disableTrigger id => exact switched id false
  | enableTrigger id => exact switched id true
  | update clock update =>
    obtain ⟨fired, -, -, moved, -⟩ := onInventoryUpdate_spec X clock update
      (fun key t found => (keyed key t found).1) fun id =>
        (Nat.add_le_add_right (h.counts id) 1).trans_lt few
    refine ⟨?_, fun id => ?_, saved⟩
    · simpa only [WatcherProcess.call, onInventoryUpdate_triggers] using keyed
    · have before : P.service.triggerFireCounts id ≤ calls.length := h.counts id
      simp only [WatcherProcess.call, count, moved, length_append, length_singleton]
      split <;> omega
  | save =>
    refine ⟨keyed, counts, fun snapshot held => ?_⟩
    cases held
    exact counts
  | restart =>
    refine ⟨fun key t found => ?_, fun id => Nat.zero_le _, saved⟩
    simp [WatcherProcess.call, new] at found
  | restore =>
    simp only [WatcherProcess.call]
    split
    · next snapshot held => exact ⟨keyed, saved snapshot held, saved⟩
    · exact ⟨keyed, counts, saved⟩

lemma within_ran (few : calls.length < 2 ^ 64) : Within calls (ran X calls) := by
  induction calls using List.reverseRecOn with
  | nil => exact ⟨by simp [ran, new], fun _ => Nat.le_refl 0, by simp [ran]⟩
  | append_singleton calls k ih =>
    rw [length_append, length_singleton] at few
    simpa only [ran, after_concat] using (ih (by omega)).call few k

/-- The orders of one call: those of its firing triggers, with their next counts. -/
theorem ordersOf_call (few : calls.length + 1 < 2 ^ 64) (k : WatcherCall) :
    ordersOf ((ran X calls).call X k).2 = [] ∨
      ∃ clock update, ∃ fired : List InventoryTrigger, k = .update clock update ∧
      (fired.map triggerId).Nodup ∧
      (∀ t ∈ fired, Adds calls t ∧ t.productId = update.productId ∧ t.ownerId = update.ownerId ∧
        (ran X (calls ++ [k])).count t.triggerId = (ran X calls).count t.triggerId + 1) ∧
      ordersOf ((ran X calls).call X k).2 <+ fired.map fun t =>
        t.order clock update ((ran X calls).count t.triggerId + 1) := by
  have within : Within calls (ran X calls) := within_ran (by omega)
  cases k with
  | setExecutor | addTrigger | disableTrigger | enableTrigger | save | restart => exact .inl rfl
  | restore =>
    refine .inl ?_
    simp only [call]
    split <;> rfl
  | update clock update =>
    obtain ⟨fired, apart, found, moved, orders⟩ := onInventoryUpdate_spec X clock update
        (fun key t found => (within.keyed key t found).1) fun id =>
          (Nat.add_le_add_right (within.counts id) 1).trans_lt few
    refine .inr ⟨clock, update, fired, rfl, apart, fun t member => ?_, orders⟩
    obtain ⟨known, product, owner⟩ := found t member
    refine ⟨(within.keyed _ t known).2, product, owner, ?_⟩
    simp only [ran, after_concat, call, count] at moved ⊢
    rw [moved, if_pos (mem_map_of_mem member)]

/-- An order carries a count its trigger had reached. -/
theorem id_of_mem_issued {tx : Transaction} (few : calls.length < 2 ^ 64)
    (member : tx ∈ issued X calls) : ∃ front t n, front <+: calls ∧ Adds calls t ∧
      tx.id = watcherTxId t n ∧ n ≤ (ran X front).count t.triggerId := by
  induction calls using List.reverseRecOn with
  | nil => simp [issued, Library.returned] at member
  | append_singleton calls k ih =>
    have sub : calls <+: calls ++ [k] := prefix_append _ _
    rw [length_append, length_singleton] at few
    simp only [issued, returned_concat, flatMap_append, mem_append] at member
    rcases member with old | new
    · obtain ⟨front, t, n, early, adds, spelled, reached⟩ := ih (by omega) old
      exact ⟨front, t, n, early.trans sub, adds.mono sub, spelled, reached⟩
    · rw [flatMap_singleton] at new
      rcases ordersOf_call (X := X) few k with none | ⟨clock, update, fired, -, -, told, orders⟩
      · exact absurd (none ▸ new) not_mem_nil
      · obtain ⟨t, listed, rfl⟩ := mem_map.mp (orders.subset new)
        obtain ⟨adds, product, owner, reached⟩ := told t listed
        exact ⟨calls ++ [k], t, _, prefix_rfl, adds.mono sub, id_order _ product owner, reached.ge⟩

lemma nodup_issued (triggers : TriggersApart calls) (kept : CountsKept X calls)
    (few : calls.length < 2 ^ 64) : ((issued X calls).map Transaction.id).Nodup := by
  induction calls using List.reverseRecOn with
  | nil => simp [issued, Library.returned]
  | append_singleton calls k ih =>
    have sub : calls <+: calls ++ [k] := prefix_append _ _
    rw [length_append, length_singleton] at few
    have before : ((issued X calls).map Transaction.id).Nodup :=
      ih (fun t t' added added' => triggers t t' (sub.subset added) (sub.subset added'))
        (kept.front sub) (by omega)
    have split : issued X (calls ++ [k]) = issued X calls ++ ordersOf ((ran X calls).call X k).2 := by
      simp [issued, ran]
    rw [split]
    rcases ordersOf_call (X := X) few k with none | ⟨clock, update, fired, rfl, apart, told, orders⟩
    · rwa [none, append_nil]
    have named {t : InventoryTrigger} (listed : t ∈ fired) (n : Nat) :
        (t.order clock update n).id = watcherTxId t n :=
      id_order n (told t listed).2.1 (told t listed).2.2.1
    rw [map_append, nodup_append]
    refine ⟨before, (orders.map _).nodup ?_, ?_⟩
    · rw [map_map]
      refine pairwise_map.mpr ((pairwise_map.mp apart).imp_of_mem ?_)
      intro t t' listed listed' different same
      simp only [Function.comp_apply, named listed, named listed'] at same
      obtain ⟨-, product, owner, -⟩ := told t listed
      obtain ⟨-, product', owner', -⟩ := told t' listed'
      exact different (triggerId_eq_of_text (product.trans product'.symm)
        (owner.trans owner'.symm) (watcherTxId_inj same).1)
    · intro first old second new
      obtain ⟨tx, member, rfl⟩ := mem_map.mp old
      obtain ⟨tx', member', rfl⟩ := mem_map.mp new
      obtain ⟨front, t, n, early, adds, spelled, reached⟩ := id_of_mem_issued (by omega) member
      obtain ⟨t', listed, rfl⟩ := mem_map.mp (orders.subset member')
      rw [spelled, named listed]
      intro same
      obtain ⟨texts, rfl⟩ := watcherTxId_inj same
      have names := triggers.eq_of_text (adds.mono sub) ((told t' listed).1.mono sub) texts
      have below := kept calls clock update prefix_rfl front early t'.triggerId
      rw [names] at reached
      omega

end WatcherProcess

/-- What a ledger answers well is in the pool afterwards, or one submitted before it with its id
is. -/
theorem queued_of_taken {X : Externals} {L : Ledger} {front : List Transaction} {tx : Transaction}
    (sound : IdsSound L) (unknown : ¬Kept L tx)
    (taken : ((L.addAll X front).addTransaction X tx).2 = .ok ()) :
    ∃ t ∈ front ++ [tx], t.id = tx.id ∧
      t ∈ ((L.addAll X front).addTransaction X tx).1.pendingTransactions := by
  have folded : IdsSound ((L.addAll X front).foldCapability X).1.foldCommittedIds :=
    (sound.addAll X front).foldCapability X |>.foldCommittedIds
  rcases Ledger.addTransaction_outcomes X (L.addAll X front) tx with
    ⟨M, e, run, -⟩ | ⟨known | queued, run⟩ | ⟨-, -, -, -, -, run⟩
  · rw [run] at taken
    cases taken
  · exact absurd (.inl (by simpa using folded.mem_chainIds known)) unknown
  · obtain ⟨t, member, same⟩ : ∃ t ∈ (L.addAll X front).pendingTransactions, t.id = tx.id := by
      simpa [Ledger.isPending] using queued
    rcases Ledger.mem_addAll member with before | early
    · exact absurd (.inr (same ▸ mem_map_of_mem before)) unknown
    · exact ⟨t, mem_append_left _ early, same, by simpa [run] using member⟩
  · exact ⟨tx, by simp, rfl, by simp [run]⟩

/-- Transactions with ids of their own are not taken for copies of each other. -/
theorem queued_of_nodup {X : Externals} {L : Ledger} {front back : List Transaction}
    {tx : Transaction} (sound : IdsSound L) (apart : (txIds (front ++ tx :: back)).Nodup)
    (unknown : ¬Kept L tx) (taken : ((L.addAll X front).addTransaction X tx).2 = .ok ()) :
    tx ∈ ((L.addAll X front).addTransaction X tx).1.pendingTransactions := by
  obtain ⟨t, submitted, same, queued⟩ := queued_of_taken sound unknown taken
  rcases mem_append.mp submitted with early | own
  · simp only [txIds, map_append, map_cons, nodup_append] at apart
    exact absurd same (apart.2.2 _ (mem_map_of_mem early) tx.id (by simp))
  · exact mem_singleton.mp own ▸ queued

/-- If no two contracts and no two triggers give the same text, offers have different ids and no
update finds a fire count below one it had, the generated transactions have different ids, and a
ledger that knew none of them takes none for a copy, in whatever order they are submitted. -/
theorem generated_ids_distinct (X : Externals) (J : OfferJson) (executor : Option ExecutionProvider)
    (engine : List ContractCall) (watcher : List WatcherCall) (offers : (offerIds engine).Nodup)
    (contracts : ContractEngine.PairsApart engine) (triggers : WatcherProcess.TriggersApart watcher)
    (kept : WatcherProcess.CountsKept X watcher) (few : watcher.length < 2 ^ 64)
    {txs : List Transaction} (generated : txs ~ ContractEngine.issued X J executor engine ++
      WatcherProcess.issued X watcher) :
    (txIds txs).Nodup ∧
    ∀ L, IdsSound L → (∀ tx ∈ txs, ¬Kept L tx) → ∀ front tx back, txs = front ++ tx :: back →
      ((L.addAll X front).addTransaction X tx).2 = .ok () →
      tx ∈ ((L.addAll X front).addTransaction X tx).1.pendingTransactions := by
  have apart : (txIds txs).Nodup := by
    refine (generated.map Transaction.id).nodup_iff.mpr ?_
    rw [map_append, nodup_append]
    refine ⟨ContractEngine.nodup_issued offers contracts,
      WatcherProcess.nodup_issued triggers kept few, ?_⟩
    intro first bought second ordered
    obtain ⟨tx, member, rfl⟩ := mem_map.mp bought
    obtain ⟨tx', member', rfl⟩ := mem_map.mp ordered
    obtain ⟨id, offerTxId, e, -, -, spelled⟩ := ContractEngine.id_of_mem_issued member
    obtain ⟨-, t, n, -, -, spelled', -⟩ := WatcherProcess.id_of_mem_issued few member'
    rw [spelled, spelled']
    exact purchaseTxId_ne_watcherTxId e id offerTxId t n
  refine ⟨apart, fun L sound unknown front tx back split taken => ?_⟩
  subst split
  exact queued_of_nodup sound apart (unknown tx (by simp)) taken

/-! Two contracts and three triggers. -/

def widgetDefinition (id : String) : SmartContractDef :=
  ⟨id, "buyer-1", "SKU-1", ⟨2000, 1, 1000, 14, some "seller-1", "USD", true⟩, none⟩

def widgetOffer (id : String) : ContractCall :=
  .offer (fun _ => 0) ⟨"SKU-1", "Widget", "seller-1", 60, 1250, 7, "USD"⟩ id

def widgetRun (ids offers : List String) : List ContractCall :=
  ids.map (fun id => .register (widgetDefinition id)) ++ offers.map widgetOffer

def restockTrigger (id product : String) : InventoryTrigger :=
  ⟨id, product, "owner", 10, 100, "seller-1", 1500, "USD", true, none⟩

def unitSold (product : String) : WatcherCall := .update (fun _ => 0) ⟨product, "owner", -1, "sold"⟩

/-- A restart between two firings, after which the last snapshot is restored. -/
def restartedRun : List WatcherCall :=
  [.addTrigger (restockTrigger "t" "SKU-1"), unitSold "SKU-1", .save, .restart,
    .addTrigger (restockTrigger "t" "SKU-1"), .restore, unitSold "SKU-1"]

lemma countsKept_restartedRun : WatcherProcess.CountsKept (.plain 0) restartedRun := by
  intro front clock update sub early before id
  have shape : front = restartedRun.take front.length :=
    prefix_iff_eq_take.mp ((prefix_append _ _).trans sub)
  have next : restartedRun[front.length]? = some (.update clock update) := by
    obtain ⟨rest, whole⟩ := sub
    rw [← whole]
    simp
  have shorter : early = front.take early.length := prefix_iff_eq_take.mp before
  have short : early.length ≤ front.length := before.length_le
  have long : front.length < 7 := (List.getElem?_eq_some_iff.mp next).1
  rw [shorter, shape]
  generalize early.length = m at short
  generalize front.length = n at short long next
  interval_cases n
  all_goals simp only [restartedRun, unitSold, getElem?_cons_zero, getElem?_cons_succ,
    Option.some.injEq, reduceCtorEq] at next
  all_goals interval_cases m
  all_goals first | exact Nat.le_refl _ | exact Nat.zero_le _

/-- Two contracts on two offers, and a trigger that fires before and after a restart. -/
theorem generated_ids_sample :
    let engine := widgetRun ["contract-1", "contract-2"] ["c", "b-c"]
    let txs := ContractEngine.issued (.plain 0) (fun _ => .ok []) none engine ++
      WatcherProcess.issued (.plain 0) restartedRun
    txs.length = 10 ∧ (txIds txs).Nodup := by
  intro engine txs
  refine ⟨by decide +kernel, ?_⟩
  refine (generated_ids_distinct (.plain 0) (fun _ => .ok []) none engine restartedRun (by decide)
    ?_ ?_ countsKept_restartedRun (by decide) (.refl txs)).1
  · have registered {id : String} (registers : ContractEngine.Registers engine id) :
        id = "contract-1" ∨ id = "contract-2" := by
      obtain ⟨d, listed, rfl⟩ := registers
      simp [engine, widgetRun, widgetOffer] at listed
      rcases listed with rfl | rfl <;> simp [widgetDefinition]
    intro id id' registers registers' offer offered offer' offered' same
    have offers : offerIds engine = ["c", "b-c"] := rfl
    rw [offers] at offered offered'
    rcases registered registers with rfl | rfl <;> rcases registered registers' with rfl | rfl <;>
      rcases mem_pair.mp offered with rfl | rfl <;>
      rcases mem_pair.mp offered' with rfl | rfl <;> revert same <;> decide
  · intro t t' added added' _
    have one {t : InventoryTrigger} (added : .addTrigger t ∈ restartedRun) :
        t = restockTrigger "t" "SKU-1" := by simpa [restartedRun, unitSold] using added
    rw [one added, one added']

/-- Contract `a-b` on offer `c` and contract `a` on offer `b-c` give one id; so do the triggers
`a:b` for `c` and `a` for `b:c`, and two firings between which an older snapshot is restored. -/
theorem generated_ids_collide :
    let bought := ContractEngine.issued (.plain 0) (fun _ => .ok []) none
      (widgetRun ["a", "a-b"] ["c", "b-c"])
    let joined := WatcherProcess.issued (.plain 0) [.addTrigger (restockTrigger "a:b" "c"),
      .addTrigger (restockTrigger "a" "b:c"), unitSold "c", unitSold "b:c"]
    let restored := WatcherProcess.issued (.plain 0) [.addTrigger (restockTrigger "t" "SKU-1"), .save,
      unitSold "SKU-1", .restart, .addTrigger (restockTrigger "t" "SKU-1"), .restore, unitSold "SKU-1"]
    let pool (txs : List Transaction) :=
      txIds ((freshPool (.plain 0)).ledger.addAll (.plain 0) txs).pendingTransactions
    bought.map (fun tx => (tx.id, tx.contractRef)) =
      [("po:a-c", some "a"), ("exec:a-c", some "a"), ("po:a-b-c", some "a-b"),
        ("exec:a-b-c", some "a-b"), ("po:a-b-c", some "a"), ("exec:a-b-c", some "a"),
        ("po:a-b-b-c", some "a-b"), ("exec:a-b-b-c", some "a-b")] ∧
    pool bought = ["po:a-c", "exec:a-c", "po:a-b-c", "exec:a-b-c", "po:a-b-b-c", "exec:a-b-b-c"] ∧
    joined.map (fun tx => (tx.id, tx.contractRef)) =
      [("watcher:a:b:c:owner:1", some "a:b"), ("watcher:a:b:c:owner:1", some "a")] ∧
    pool joined = ["watcher:a:b:c:owner:1"] ∧
    txIds restored = ["watcher:t:SKU-1:owner:1", "watcher:t:SKU-1:owner:1"] ∧
    pool restored = ["watcher:t:SKU-1:owner:1"] := by
  decide +kernel

end GlassChain
