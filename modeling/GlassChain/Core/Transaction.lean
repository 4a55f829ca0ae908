import Mathlib

/-!
# Transactions and their payloads

The ledger's data model: JSON values as `serde_json` holds them, canonical records, capability
activations, endorsement policies and carriers, persistent writes, and the transaction itself. Field
names follow the source in camel case. `u64`, `u32` and `usize` quantities are `Nat`; a sum the
source lets wrap is taken modulo `2 ^ 64` or `2 ^ 32` where it is formed.

`BTreeMap` payloads are association lists in key order. All of these types are countable, which is
what makes an injective textual encoding of a block possible at all.
-/

namespace GlassChain

open List

abbrev Bytes := List UInt8

def utf8 (s : String) : Bytes := s.toByteArray.data.toList

lemma utf8_injective : Function.Injective utf8 := by
  intro s t h
  apply String.toByteArray_inj.mp
  exact ByteArray.ext (Array.toList_inj.mp h)

lemma utf8_append (a b : String) : utf8 (a ++ b) = utf8 a ++ utf8 b := by
  simp [utf8, String.toByteArray_append]

lemma utf8_zeros (n : Nat) : utf8 (String.ofList (List.replicate n '0')) = List.replicate n 48 := by
  induction n with
  | zero => decide
  | succ n ih =>
    rw [replicate_succ, String.ofList_cons, utf8_append, ih, replicate_succ]
    exact congrArg (· ++ List.replicate n 48) (by decide : utf8 (String.singleton '0') = [48])

instance countableString : Countable String :=
  utf8_injective.countable

/-- `serde_json::Number`; a float is kept by its bit pattern. -/
inductive Number where
  | posInt (n : Nat)
  | negInt (n : Int)
  | float (bits : UInt64)
  deriving DecidableEq, Repr

/-- `serde_json::Value`. Objects are `BTreeMap`s: association lists in key order. -/
inductive Value where
  | null
  | bool (b : Bool)
  | number (n : Number)
  | string (s : String)
  | array (items : List Value)
  | object (fields : List (String × Value))
  deriving Repr

namespace Value

def asStr : Value → Option String
  | .string s => some s
  | _ => none

def asArray : Value → Option (List Value)
  | .array items => some items
  | _ => none

def asObject : Value → Option (List (String × Value))
  | .object fields => some fields
  | _ => none

end Value

def Number.asU64 : Number → Option Nat
  | .posInt n => some n
  | _ => none

def lookup {α : Type} (key : String) (m : List (String × α)) : Option α :=
  (m.find? (fun e => e.1 == key)).map Prod.snd

inductive SignatureAlgorithm where
  | ed25519
  | bls12381
  deriving DecidableEq, Repr

structure RecordSignature where
  signer : String
  signatureBytes : Bytes
  algorithm : SignatureAlgorithm
  deriving DecidableEq, Repr

structure ExtensionValue where
  schemaVersion : Nat
  value : List (String × Value)
  deriving Repr

structure CanonicalRecord where
  recordId : String
  schemaId : String
  schemaVersion : Nat
  commitment : Option String
  occurredAt : Nat
  issuer : String
  signatures : List RecordSignature
  pdcRef : Option String
  extensions : List (String × ExtensionValue)
  payload : List (String × Value)
  deriving Repr

structure CapabilityActivation where
  capabilityId : String
  version : Nat
  hash : String
  activationHeight : Nat
  signatures : List RecordSignature
  deriving DecidableEq, Repr

/-- A v1 policy principal: a verified organization member identifier. -/
structure Principal where
  name : String
  deriving DecidableEq, Repr

inductive PolicyExpression where
  | signedBy (principal : Principal)
  | nOutOf (required : Nat) (rules : List PolicyExpression)
  deriving Repr

structure ScopedTarget where
  channel : String
  contract : String
  keys : List String
  collection : Option String
  deriving DecidableEq, Repr

structure ScopedPolicies where
  channelDefault : PolicyExpression
  contractDefault : Option PolicyExpression
  collectionPolicy : Option PolicyExpression
  keyPolicies : List (String × PolicyExpression)
  deriving Repr

structure EndorserIdentity where
  claimedPrincipal : Principal
  publicKey : Bytes
  signature : Bytes
  algorithm : SignatureAlgorithm
  deriving DecidableEq, Repr

structure TransactionEndorsement where
  target : ScopedTarget
  signers : List EndorserIdentity
  deriving DecidableEq, Repr

structure PolicyUpdate where
  channel : String
  contract : String
  policies : ScopedPolicies
  deriving Repr

structure SupplyOffer where
  productId : String
  productName : String
  sellerId : String
  quantityAvailable : Nat
  pricePerUnit : Nat
  leadTimeDays : Nat
  currency : String
  deriving DecidableEq, Repr

structure PurchaseOrder where
  productId : String
  buyerId : String
  sellerId : String
  quantity : Nat
  agreedPricePerUnit : Nat
  currency : String
  contractId : Option String
  deriving DecidableEq, Repr

structure PurchaseConditions where
  maxPricePerUnit : Nat
  minQuantity : Nat
  maxQuantity : Nat
  maxLeadTimeDays : Nat
  preferredSellerId : Option String
  currency : String
  autoExecute : Bool
  deriving DecidableEq, Repr

structure SmartContractDef where
  contractId : String
  buyerId : String
  productId : String
  conditions : PurchaseConditions
  wasmCodeB64 : Option String
  deriving DecidableEq, Repr

structure ContractExecution where
  contractId : String
  purchaseOrderTxId : String
  buyerId : String
  sellerId : String
  productId : String
  quantity : Nat
  totalPrice : Nat
  currency : String
  deriving DecidableEq, Repr

structure InventoryUpdate where
  productId : String
  ownerId : String
  quantityDelta : Int
  reason : String
  deriving DecidableEq, Repr

structure TraceableAsset where
  gtin : Option String
  batchNumber : Option String
  expiryDate : Option String
  serialNumber : Option String
  anvisaRegistration : Option String
  manufacturerId : Option String
  productName : String
  custodianId : String
  countryOfOrigin : Option String
  storageTempCelsius : Option String
  quantity : Nat
  deriving DecidableEq, Repr

structure TraceableAssetRegistration where
  asset : TraceableAsset
  eventType : String
  originatorId : String
  purchaseOrderRef : Option String
  deriving DecidableEq, Repr

inductive TransactionKind where
  | supplyOffer (offer : SupplyOffer)
  | purchaseOrder (order : PurchaseOrder)
  | contractCreation (definition : SmartContractDef)
  | contractExecution (execution : ContractExecution)
  | inventoryUpdate (update : InventoryUpdate)
  | assetRegistration (registration : TraceableAssetRegistration)
  | canonicalRecord (record : CanonicalRecord)
  | capabilityActivation (activation : CapabilityActivation)
  | policyUpdate (update : PolicyUpdate)
  deriving Repr

structure Transaction where
  id : String
  timestamp : Nat
  kind : TransactionKind
  endorsements : List TransactionEndorsement
  deriving Repr

inductive WriteVisibility where
  | pub
  | pdc (collection : String)
  deriving DecidableEq, Repr

inductive WriteOp where
  | set (value : Bytes)
  | delete
  deriving DecidableEq, Repr

structure PersistentWrite where
  channel : String
  contract : String
  key : String
  op : WriteOp
  visibility : WriteVisibility
  deriving DecidableEq, Repr

/-! ## Countability

The two nested types are exhausted by the countable families of trees of bounded depth. -/

section Countability

deriving instance Countable for Number, SignatureAlgorithm, RecordSignature

private lemma countable_lists {α : Type} {s : Set α} (hs : s.Countable) :
    {l : List α | ∀ x ∈ l, x ∈ s}.Countable := by
  have : Countable s := hs.to_subtype
  refine (Set.countable_range (List.map ((↑) : s → α))).mono fun l hl => ?_
  exact ⟨l.attachWith (· ∈ s) hl, by simp⟩

/-- A member of every family above some depth is a member of all later ones. -/
private theorem exists_common_depth {α : Type} {V : Nat → Set α} (mono : Monotone V)
    (l : List α) (h : ∀ x ∈ l, ∃ n, x ∈ V n) : ∃ n, ∀ x ∈ l, x ∈ V n := by
  induction l with
  | nil => exact ⟨0, by simp⟩
  | cons x l ih =>
    obtain ⟨m, hm⟩ := h x (by simp)
    obtain ⟨n, hn⟩ := ih fun y hy => h y (by simp [hy])
    refine ⟨max m n, ?_⟩
    intro y hy
    rcases mem_cons.mp hy with rfl | hy
    · exact mono (le_max_left m n) hm
    · exact mono (le_max_right m n) (hn y hy)

/-- JSON values of nesting depth below `n`. -/
private def valuesUpTo : Nat → Set Value
  | 0 => ∅
  | n + 1 => {.null} ∪ Set.range .bool ∪ Set.range .number ∪ Set.range .string ∪
      Value.array '' {l | ∀ x ∈ l, x ∈ valuesUpTo n} ∪
      Value.object '' {l | ∀ e ∈ l, e ∈ (Set.univ : Set String) ×ˢ valuesUpTo n}

private lemma valuesUpTo_mono : Monotone valuesUpTo := by
  refine monotone_nat_of_le_succ fun n => ?_
  induction n with
  | zero => exact Set.empty_subset _
  | succ n ih =>
    refine Set.union_subset_union (Set.union_subset_union le_rfl ?_) ?_
    · exact Set.image_mono fun l hl x hx => ih (hl x hx)
    · exact Set.image_mono fun l hl e he => ⟨trivial, ih (hl e he).2⟩

private lemma valuesUpTo_countable (n : Nat) : (valuesUpTo n).Countable := by
  induction n with
  | zero => exact Set.countable_empty
  | succ n ih =>
    have atoms : ({Value.null} ∪ Set.range Value.bool ∪ Set.range Value.number ∪
        Set.range Value.string).Countable :=
      (((Set.countable_singleton _).union (Set.countable_range _)).union
        (Set.countable_range _)).union (Set.countable_range _)
    exact (atoms.union ((countable_lists ih).image _)).union
      ((countable_lists (Set.countable_univ.prod ih)).image _)

mutual

private lemma value_mem : (v : Value) → ∃ n, v ∈ valuesUpTo n
  | .null => ⟨1, by simp [valuesUpTo]⟩
  | .bool _ => ⟨1, by simp [valuesUpTo]⟩
  | .number _ => ⟨1, by simp [valuesUpTo]⟩
  | .string _ => ⟨1, by simp [valuesUpTo]⟩
  | .array items => by
    obtain ⟨n, hn⟩ := exists_common_depth valuesUpTo_mono items (values_mem items)
    exact ⟨n + 1, .inl (.inr ⟨items, hn, rfl⟩)⟩
  | .object fields => by
    obtain ⟨n, hn⟩ := exists_common_depth (V := fun n => (Set.univ : Set String) ×ˢ valuesUpTo n)
      (fun _ _ h => Set.prod_mono le_rfl (valuesUpTo_mono h)) fields (fields_mem fields)
    exact ⟨n + 1, .inr ⟨fields, hn, rfl⟩⟩

private lemma values_mem : (l : List Value) → ∀ v ∈ l, ∃ n, v ∈ valuesUpTo n
  | [], _, h => nomatch h
  | x :: l, v, h => by
    rcases mem_cons.mp h with h | h
    · exact h ▸ value_mem x
    · exact values_mem l v h

private lemma fields_mem : (l : List (String × Value)) → ∀ e ∈ l,
    ∃ n, e ∈ (Set.univ : Set String) ×ˢ valuesUpTo n
  | [], _, h => nomatch h
  | (key, x) :: l, e, h => by
    rcases mem_cons.mp h with rfl | h
    · obtain ⟨n, hn⟩ := value_mem x
      exact ⟨n, trivial, hn⟩
    · exact fields_mem l e h

end

/-- A type exhausted by countably many countable sets is countable. -/
private theorem countable_of_exhaustion {α : Type} {V : Nat → Set α}
    (hc : ∀ n, (V n).Countable) (hx : ∀ a, ∃ n, a ∈ V n) : Countable α := by
  refine Set.countable_univ_iff.mp ((Set.countable_iUnion hc).mono fun a _ => ?_)
  exact Set.mem_iUnion.mpr (hx a)

instance : Countable Value := countable_of_exhaustion valuesUpTo_countable value_mem

/-- Policy trees of depth below `n`. -/
private def policiesUpTo : Nat → Set PolicyExpression
  | 0 => ∅
  | n + 1 => Set.range .signedBy ∪
      (fun p => PolicyExpression.nOutOf p.1 p.2) ''
        ((Set.univ : Set Nat) ×ˢ {l | ∀ x ∈ l, x ∈ policiesUpTo n})

private lemma policiesUpTo_mono : Monotone policiesUpTo := by
  refine monotone_nat_of_le_succ fun n => ?_
  induction n with
  | zero => exact Set.empty_subset _
  | succ n ih =>
    exact Set.union_subset_union le_rfl
      (Set.image_mono (Set.prod_mono le_rfl fun l hl x hx => ih (hl x hx)))

deriving instance Countable for Principal

private lemma policiesUpTo_countable (n : Nat) : (policiesUpTo n).Countable := by
  induction n with
  | zero => exact Set.countable_empty
  | succ n ih =>
    exact (Set.countable_range _).union ((Set.countable_univ.prod (countable_lists ih)).image _)

mutual

private lemma policy_mem : (e : PolicyExpression) → ∃ n, e ∈ policiesUpTo n
  | .signedBy _ => ⟨1, by simp [policiesUpTo]⟩
  | .nOutOf required rules => by
    obtain ⟨n, hn⟩ := exists_common_depth policiesUpTo_mono rules (policies_mem rules)
    exact ⟨n + 1, .inr ⟨(required, rules), ⟨trivial, hn⟩, rfl⟩⟩

private lemma policies_mem : (l : List PolicyExpression) → ∀ e ∈ l, ∃ n, e ∈ policiesUpTo n
  | [], _, h => nomatch h
  | x :: l, e, h => by
    rcases mem_cons.mp h with h | h
    · exact h ▸ policy_mem x
    · exact policies_mem l e h

end

instance : Countable PolicyExpression := countable_of_exhaustion policiesUpTo_countable policy_mem

deriving instance Countable for ExtensionValue, CanonicalRecord, CapabilityActivation, ScopedTarget,
  ScopedPolicies, EndorserIdentity, TransactionEndorsement, PolicyUpdate, SupplyOffer,
  PurchaseOrder, PurchaseConditions, SmartContractDef, ContractExecution, InventoryUpdate,
  TraceableAsset, TraceableAssetRegistration, TransactionKind, Transaction, WriteVisibility,
  WriteOp, PersistentWrite

end Countability

end GlassChain
