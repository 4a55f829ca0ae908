import GlassChain.Core.Text
import GlassChain.Indexer.InMemory

/-!
# Verifiable lineage

Two read models are fed by the asset registrations of a chain: the provenance index groups them by a
composite asset identifier, the flattener keeps one flat record for each. A lineage takes the
custody chain of an identifier from the first, the records of the GTIN that it reads back out of the
identifier from the second, and compares their numbers. The two name the same transactions exactly
where the GTIN selects the registrations that the identifier does.
-/

namespace GlassChain

open Library List

structure CustodyEvent where
  assetId : String
  eventType : String
  custodianId : String
  transactionId : String
  blockIndex : Nat
  timestamp : Nat
  deriving DecidableEq, Repr

def assetIdFor (asset : TraceableAsset) : String :=
  match asset.gtin, asset.serialNumber, asset.batchNumber with
  | some gtin, some sn, _ => s!"GTIN:{gtin}:SN:{sn}"
  | some gtin, _, some batch => s!"GTIN:{gtin}:BATCH:{batch}"
  | some gtin, _, _ => s!"GTIN:{gtin}"
  | none, some sn, _ => s!"SN:{sn}"
  | _, _, _ => s!"PRODUCT:{asset.productName}"

def custodyEvent (block : Block) (tx : Transaction) (reg : TraceableAssetRegistration) :
    CustodyEvent where
  assetId := assetIdFor reg.asset
  eventType := reg.eventType
  custodianId := reg.asset.custodianId
  transactionId := tx.id
  blockIndex := block.index
  timestamp := tx.timestamp

structure ProvenanceIndex where
  custodyChains : AList fun _ : String => List CustodyEvent

namespace ProvenanceIndex

def new : ProvenanceIndex := ⟨∅⟩

def getCustodyChain (P : ProvenanceIndex) (assetId : String) : List CustodyEvent :=
  (P.custodyChains.lookup assetId).getD []

def recordEvent (P : ProvenanceIndex) (event : CustodyEvent) : ProvenanceIndex :=
  ⟨P.custodyChains.insert event.assetId (P.getCustodyChain event.assetId ++ [event])⟩

def ingestTransaction (block : Block) (P : ProvenanceIndex) (tx : Transaction) : ProvenanceIndex :=
  match tx.kind with
  | .assetRegistration reg => P.recordEvent (custodyEvent block tx reg)
  | _ => P

def ingestBlock (P : ProvenanceIndex) (block : Block) : ProvenanceIndex :=
  block.transactions.foldl (ingestTransaction block) P

def ofChain (chain : List Block) : ProvenanceIndex := chain.foldl ingestBlock new

end ProvenanceIndex

structure MetadataTrustScore where
  score : Nat
  isStandard : Bool
  missingCoreFields : List String
  bonusFieldsPresent : List String
  deriving DecidableEq, Repr

def filled (field : Option String) : Bool := field.any fun text => text ≠ ""

def MetadataTrustScore.compute (asset : TraceableAsset) : MetadataTrustScore :=
  let core := [("gtin", filled asset.gtin), ("batch_number", filled asset.batchNumber),
    ("expiry_date", asset.expiryDate.any isValidIso8601Date),
    ("serial_number", filled asset.serialNumber)]
  let bonus := [("anvisa_registration", filled asset.anvisaRegistration),
    ("manufacturer_id", filled asset.manufacturerId)]
  let score := 20 * core.countP Prod.snd + 10 * bonus.countP Prod.snd
  { score := score
    isStandard := 80 ≤ score
    missingCoreFields := (core.filter fun field => !field.2).map Prod.fst
    bonusFieldsPresent := (bonus.filter Prod.snd).map Prod.fst }

structure FlatAssetRecord where
  blockIndex : Nat
  blockHash : String
  blockTimestamp : Nat
  transactionId : String
  transactionTimestamp : Nat
  gtin : Option String
  batchNumber : Option String
  expiryDate : Option String
  serialNumber : Option String
  anvisaRegistration : Option String
  manufacturerId : Option String
  productName : String
  custodianId : String
  countryOfOrigin : Option String
  storageTempCelsius : Option String
  quantity : Nat
  eventType : String
  originatorId : String
  purchaseOrderRef : Option String
  trustScore : Nat
  isStandardCompliant : Bool
  missingCoreFields : String
  deriving DecidableEq, Repr

def flatRecord (blockIndex : Nat) (blockHash : String) (blockTimestamp : Nat) (transactionId : String)
    (transactionTimestamp : Nat) (reg : TraceableAssetRegistration) : FlatAssetRecord where
  blockIndex := blockIndex
  blockHash := blockHash
  blockTimestamp := blockTimestamp
  transactionId := transactionId
  transactionTimestamp := transactionTimestamp
  gtin := reg.asset.gtin
  batchNumber := reg.asset.batchNumber
  expiryDate := reg.asset.expiryDate
  serialNumber := reg.asset.serialNumber
  anvisaRegistration := reg.asset.anvisaRegistration
  manufacturerId := reg.asset.manufacturerId
  productName := reg.asset.productName
  custodianId := reg.asset.custodianId
  countryOfOrigin := reg.asset.countryOfOrigin
  storageTempCelsius := reg.asset.storageTempCelsius
  quantity := reg.asset.quantity
  eventType := reg.eventType
  originatorId := reg.originatorId
  purchaseOrderRef := reg.purchaseOrderRef
  trustScore := (MetadataTrustScore.compute reg.asset).score
  isStandardCompliant := (MetadataTrustScore.compute reg.asset).isStandard
  missingCoreFields := ",".intercalate (MetadataTrustScore.compute reg.asset).missingCoreFields

inductive FlattenerError where
  | deserialization (message : String)
  | notAssetRegistration
  deriving DecidableEq, Repr

structure AnalyticalFlattener where
  records : List FlatAssetRecord

namespace AnalyticalFlattener

def new : AnalyticalFlattener := ⟨[]⟩

/-- `decode` is `serde_json::from_str` for transactions. -/
def flattenTransaction (decode : Bytes → Except String Transaction) (tx : IndexedTransaction)
    (blockIndex : Nat) (blockHash : String) (blockTimestamp : Nat) :
    Except FlattenerError FlatAssetRecord :=
  if tx.kind ≠ "AssetRegistration" then .error .notAssetRegistration
  else match decode tx.payloadJson with
    | .error e => .error (.deserialization e)
    | .ok fullTx => match fullTx.kind with
      | .assetRegistration reg =>
        .ok (flatRecord blockIndex blockHash blockTimestamp tx.id tx.timestamp reg)
      | _ => .error .notAssetRegistration

/-- What cannot be flattened is skipped. -/
def ingestIndexedBlock (decode : Bytes → Except String Transaction) (F : AnalyticalFlattener)
    (block : IndexedBlock) (transactions : List IndexedTransaction) : AnalyticalFlattener :=
  transactions.foldl (fun F tx =>
    if tx.kind ≠ "AssetRegistration" then F
    else match flattenTransaction decode tx block.index block.hash block.timestamp with
      | .ok record => ⟨F.records ++ [record]⟩
      | .error _ => F) F

def recordsByGtin (F : AnalyticalFlattener) (gtin : String) : List FlatAssetRecord :=
  F.records.filter fun r => r.gtin = some gtin

def ofChain (X : Externals) (decode : Bytes → Except String Transaction) (chain : List Block) :
    AnalyticalFlattener :=
  chain.foldl (fun F block =>
    F.ingestIndexedBlock decode (.ofBlock block) (indexedTransactionsOf X block)) new

end AnalyticalFlattener

structure VerifiableLineage where
  assetId : String
  custodyChain : List CustodyEvent
  flatRecords : List FlatAssetRecord
  isComplete : Bool
  /-- The exact quotient, before it is rounded. -/
  trustScoreAvg : ℚ

/-- The part between `GTIN:` and the next colon. -/
def extractGtin (assetId : String) : Option String :=
  (stripPrefix "GTIN:" assetId).map fun rest => String.ofList (rest.toList.takeWhile (· ≠ ':'))

namespace VerifiableLineage

def build (assetId : String) (provenance : ProvenanceIndex) (flattener : AnalyticalFlattener) :
    VerifiableLineage :=
  let custodyChain := provenance.getCustodyChain assetId
  let flatRecords := ((extractGtin assetId).map flattener.recordsByGtin).getD []
  { assetId := assetId
    custodyChain := custodyChain
    flatRecords := flatRecords
    isComplete := custodyChain.length == flatRecords.length
    trustScoreAvg := if flatRecords.isEmpty then 0
      else (flatRecords.map FlatAssetRecord.trustScore).sum / flatRecords.length }

/-- Some custody event has no flat record of its own transaction. -/
def Lacks (L : VerifiableLineage) : Prop :=
  ∃ event ∈ L.custodyChain, ∀ record ∈ L.flatRecords, record.transactionId ≠ event.transactionId

end VerifiableLineage

structure CommittedRegistration where
  block : Block
  transaction : Transaction
  registration : TraceableAssetRegistration

def Block.registrations (block : Block) : List CommittedRegistration :=
  block.transactions.filterMap fun tx => match tx.kind with
    | .assetRegistration reg => some ⟨block, tx, reg⟩
    | _ => none

def registrationsOf (chain : List Block) : List CommittedRegistration :=
  chain.flatMap Block.registrations

namespace CommittedRegistration

def asset (r : CommittedRegistration) : TraceableAsset := r.registration.asset

def event (r : CommittedRegistration) : CustodyEvent :=
  custodyEvent r.block r.transaction r.registration

def record (r : CommittedRegistration) : FlatAssetRecord :=
  flatRecord r.block.index r.block.hash r.block.timestamp r.transaction.id r.transaction.timestamp
    r.registration

def Selected (assetId : String) (r : CommittedRegistration) : Prop :=
  ∃ gtin, extractGtin assetId = some gtin ∧ r.asset.gtin = some gtin

instance (assetId : String) : DecidablePred (Selected assetId) := fun r =>
  decidable_of_iff ((extractGtin assetId).isSome ∧ r.asset.gtin = extractGtin assetId) (by
    unfold Selected
    cases extractGtin assetId <;> simp)

end CommittedRegistration

namespace ProvenanceIndex

variable {P : ProvenanceIndex} {block : Block}

lemma getCustodyChain_recordEvent (event : CustodyEvent) (assetId : String) :
    (P.recordEvent event).getCustodyChain assetId =
      P.getCustodyChain assetId ++ if event.assetId = assetId then [event] else [] := by
  unfold recordEvent
  rw [getCustodyChain]
  by_cases same : event.assetId = assetId
  · subst same
    simp
  · rw [AList.lookup_insert_ne (Ne.symm same), if_neg same, append_nil]
    rfl

lemma getCustodyChain_ingestBlock (P : ProvenanceIndex) (block : Block) (assetId : String) :
    (P.ingestBlock block).getCustodyChain assetId = P.getCustodyChain assetId ++
      (block.registrations.filter fun r => assetIdFor r.asset = assetId).map
        CommittedRegistration.event := by
  unfold ingestBlock Block.registrations
  induction block.transactions generalizing P with
  | nil => simp
  | cons tx rest ih =>
    rw [foldl_cons, ih, filterMap_cons, ingestTransaction]
    cases tx.kind with
    | assetRegistration reg =>
      rw [getCustodyChain_recordEvent, append_assoc, filter_cons]
      congr 1
      by_cases same : assetIdFor reg.asset = assetId
      · simp [CommittedRegistration.asset, CommittedRegistration.event, custodyEvent, same]
      · simp [CommittedRegistration.asset, custodyEvent, same]
    | _ => rfl

lemma getCustodyChain_ofChain (chain : List Block) (assetId : String) :
    (ofChain chain).getCustodyChain assetId =
      ((registrationsOf chain).filter fun r => assetIdFor r.asset = assetId).map
        CommittedRegistration.event := by
  induction chain using List.reverseRecOn with
  | nil => rfl
  | append_singleton chain block ih =>
    rw [ofChain, foldl_append]
    change ((ofChain chain).ingestBlock block).getCustodyChain assetId = _
    rw [getCustodyChain_ingestBlock, ih]
    simp [registrationsOf]

end ProvenanceIndex

namespace AnalyticalFlattener

variable {X : Externals} {decode : Bytes → Except String Transaction}

def Lossless (X : Externals) (decode : Bytes → Except String Transaction) : Prop :=
  ∀ tx reg, tx.kind = .assetRegistration reg → decode (X.transactionJson tx) = .ok tx

lemma records_ingestBlock (lossless : Lossless X decode) (F : AnalyticalFlattener) (block : Block) :
    (F.ingestIndexedBlock decode (.ofBlock block) (indexedTransactionsOf X block)).records =
      F.records ++ block.registrations.map CommittedRegistration.record := by
  unfold ingestIndexedBlock indexedTransactionsOf Block.registrations
  induction block.transactions generalizing F with
  | nil => simp
  | cons tx rest ih =>
    rw [map_cons, foldl_cons, ih, filterMap_cons]
    cases kind : tx.kind with
    | assetRegistration reg =>
      simp [Transaction.kindName, kind, flattenTransaction, lossless tx reg kind,
        CommittedRegistration.record, IndexedBlock.ofBlock]
    | _ => simp [Transaction.kindName, kind]

lemma records_ofChain (lossless : Lossless X decode) (chain : List Block) :
    (ofChain X decode chain).records = (registrationsOf chain).map CommittedRegistration.record := by
  induction chain using List.reverseRecOn with
  | nil => rfl
  | append_singleton chain block ih =>
    rw [ofChain, foldl_append]
    change ((ofChain X decode chain).ingestIndexedBlock decode _ _).records = _
    rw [records_ingestBlock lossless, ih]
    simp [registrationsOf]

end AnalyticalFlattener

namespace VerifiableLineage

variable {X : Externals} {decode : Bytes → Except String Transaction} {chain : List Block}

/-- The lineage of an identifier over a chain that both read models have ingested. -/
def ofChain (X : Externals) (decode : Bytes → Except String Transaction) (chain : List Block)
    (assetId : String) : VerifiableLineage :=
  build assetId (.ofChain chain) (.ofChain X decode chain)

lemma custodyChain_ofChain (assetId : String) :
    (ofChain X decode chain assetId).custodyChain =
      ((registrationsOf chain).filter fun r => assetIdFor r.asset = assetId).map
        CommittedRegistration.event :=
  ProvenanceIndex.getCustodyChain_ofChain chain assetId

lemma flatRecords_ofChain (lossless : AnalyticalFlattener.Lossless X decode) (assetId : String) :
    (ofChain X decode chain assetId).flatRecords =
      ((registrationsOf chain).filter fun r => r.Selected assetId).map
        CommittedRegistration.record := by
  change ((extractGtin assetId).map _).getD [] = _
  cases gtin : extractGtin assetId with
  | none => simp [CommittedRegistration.Selected, gtin]
  | some g =>
    rw [Option.map_some, Option.getD_some, AnalyticalFlattener.recordsByGtin,
      AnalyticalFlattener.records_ofChain lossless, filter_map]
    refine congrArg _ (filter_congr fun r _ => decide_eq_decide.mpr ?_)
    simp [CommittedRegistration.Selected, gtin, CommittedRegistration.record,
      CommittedRegistration.asset, flatRecord]

lemma recordIds_ofChain (lossless : AnalyticalFlattener.Lossless X decode) (assetId : String) :
    (ofChain X decode chain assetId).flatRecords.map FlatAssetRecord.transactionId =
      ((registrationsOf chain).filter fun r => r.Selected assetId).map fun r => r.transaction.id := by
  rw [flatRecords_ofChain lossless, map_map]
  rfl

lemma eventIds_ofChain (assetId : String) :
    (ofChain X decode chain assetId).custodyChain.map CustodyEvent.transactionId =
      ((registrationsOf chain).filter fun r => assetIdFor r.asset = assetId).map
        fun r => r.transaction.id := by
  rw [custodyChain_ofChain, map_map]
  rfl

/-- Only the numbers of events and records are compared. -/
theorem isComplete_ofChain (assetId : String) :
    (ofChain X decode chain assetId).isComplete =
      (((ofChain X decode chain assetId).custodyChain.map CustodyEvent.transactionId).length ==
        ((ofChain X decode chain assetId).flatRecords.map FlatAssetRecord.transactionId).length) := by
  rw [length_map, length_map]
  rfl

end VerifiableLineage

/-- Two selections of distinct names that are alike select the same members. -/
theorem eq_of_map_filter {α β : Type} {name : α → β} {l : List α} {p q : α → Bool}
    (distinct : (l.map name).Nodup) (same : (l.filter p).map name = (l.filter q).map name) :
    ∀ a ∈ l, p a = q a := by
  have select {p q : α → Bool} (same : (l.filter p).map name = (l.filter q).map name) {a : α}
      (listed : a ∈ l) (chosen : p a = true) : q a = true := by
    have named : name a ∈ (l.filter q).map name :=
      same ▸ mem_map_of_mem (mem_filter.mpr ⟨listed, chosen⟩)
    obtain ⟨b, member, names⟩ := mem_map.mp named
    obtain ⟨listed', chosen'⟩ := mem_filter.mp member
    rwa [inj_on_of_nodup_map distinct listed' listed names] at chosen'
  intro a listed
  exact Bool.eq_iff_iff.mpr ⟨select same listed, select same.symm listed⟩

open VerifiableLineage in
/-- The flat records of a lineage are those of its custody events, in order, if the GTIN read out of
the identifier selects the registrations with that identifier and no others; and only then, where
transaction identifiers are distinct. -/
theorem lineage_exact_of_selected (X : Externals) (decode : Bytes → Except String Transaction)
    (lossless : AnalyticalFlattener.Lossless X decode) (chain : List Block) (assetId : String) :
    let L := VerifiableLineage.ofChain X decode chain assetId
    let Exact := ∀ r ∈ registrationsOf chain, r.Selected assetId ↔ assetIdFor r.asset = assetId
    (Exact → L.flatRecords.map FlatAssetRecord.transactionId =
        L.custodyChain.map CustodyEvent.transactionId ∧ L.isComplete = true ∧ ¬L.Lacks) ∧
    (((registrationsOf chain).map fun r => r.transaction.id).Nodup →
      (L.flatRecords.map FlatAssetRecord.transactionId =
        L.custodyChain.map CustodyEvent.transactionId ↔ Exact)) := by
  intro L Exact
  have sufficient (selected : Exact) : L.flatRecords.map FlatAssetRecord.transactionId =
      L.custodyChain.map CustodyEvent.transactionId := by
    rw [recordIds_ofChain lossless, eventIds_ofChain]
    exact congrArg _ (filter_congr fun r listed => decide_eq_decide.mpr (selected r listed))
  refine ⟨fun selected => ⟨sufficient selected, ?_, ?_⟩, fun distinct => ⟨fun same => ?_, sufficient⟩⟩
  · rw [isComplete_ofChain, beq_iff_eq]
    exact congrArg List.length (sufficient selected).symm
  · -- each event has the record of its transaction
    rintro ⟨event, listed, none⟩
    have named : event.transactionId ∈ L.flatRecords.map FlatAssetRecord.transactionId :=
      sufficient selected ▸ mem_map_of_mem listed
    obtain ⟨record, member, found⟩ := mem_map.mp named
    exact none record member found
  · rw [recordIds_ofChain lossless, eventIds_ofChain] at same
    exact fun r listed => decide_eq_decide.mp (eq_of_map_filter distinct same r listed)

noncomputable def transactionText (tx : Transaction) : Bytes :=
  utf8 (Externals.unary ((Countable.exists_injective_nat Transaction).choose tx))

lemma transactionText_injective : Function.Injective transactionText :=
  utf8_injective.comp (Externals.unary_injective.comp
    (Countable.exists_injective_nat Transaction).choose_spec)

noncomputable def readableExternals : Externals :=
  { Externals.plain 0 with transactionJson := transactionText }

noncomputable def decodeTransaction (raw : Bytes) : Except String Transaction :=
  match Function.partialInv transactionText raw with
  | some tx => .ok tx
  | none => .error "unreadable transaction"

lemma lossless_decodeTransaction :
    AnalyticalFlattener.Lossless readableExternals decodeTransaction := by
  intro tx _ _
  rw [decodeTransaction]
  change (match Function.partialInv transactionText (transactionText tx) with
    | some tx => _
    | none => _) = _
  rw [Function.partialInv_left transactionText_injective]

def registering (id : String) (gtin serialNumber : Option String) : Transaction :=
  ⟨id, 0, .assetRegistration ⟨⟨gtin, none, none, serialNumber, none, none, "vaccine", "farm", none,
    none, 1⟩, "manufacture", "farm", none⟩, []⟩

def registeringBlock (transactions : List Transaction) : Block :=
  ⟨1, 0, transactions, [], "", 0, "", none⟩

noncomputable def sampleLineage (transactions : List Transaction) (assetId : String) :
    VerifiableLineage :=
  .ofChain readableExternals decodeTransaction [registeringBlock transactions] assetId

/-- One unit with a GTIN, registered twice. -/
theorem lineage_exact_sample :
    let L := sampleLineage [registering "a" (some "1") (some "x"),
      registering "b" (some "1") (some "x")] "GTIN:1:SN:x"
    L.flatRecords.map FlatAssetRecord.transactionId =
      L.custodyChain.map CustodyEvent.transactionId := by
  refine ((lineage_exact_of_selected readableExternals decodeTransaction lossless_decodeTransaction
    _ "GTIN:1:SN:x").1 ?_).1
  decide

/-- The transactions of the events and of the records, and whether the lineage counts as
complete. -/
def Shows (L : VerifiableLineage) (events records : List String) (complete : Bool) : Prop :=
  L.custodyChain.map CustodyEvent.transactionId = events ∧
    L.flatRecords.map FlatAssetRecord.transactionId = records ∧ L.isComplete = complete

lemma shows_sampleLineage {transactions : List Transaction} {assetId : String}
    {events records : List String}
    (chosen : ((registeringBlock transactions).registrations.filter
      fun r => assetIdFor r.asset = assetId).map (fun r => r.transaction.id) = events)
    (selected : ((registeringBlock transactions).registrations.filter
      fun r => r.Selected assetId).map (fun r => r.transaction.id) = records) :
    Shows (sampleLineage transactions assetId) events records (events.length == records.length) := by
  have one : registrationsOf [registeringBlock transactions] =
      (registeringBlock transactions).registrations := by simp [registrationsOf]
  have shownEvents : (sampleLineage transactions assetId).custodyChain.map
      CustodyEvent.transactionId = _ := VerifiableLineage.eventIds_ofChain assetId
  have shownRecords : (sampleLineage transactions assetId).flatRecords.map
      FlatAssetRecord.transactionId = _ :=
    VerifiableLineage.recordIds_ofChain lossless_decodeTransaction assetId
  rw [one, chosen] at shownEvents
  rw [one, selected] at shownRecords
  refine ⟨shownEvents, shownRecords, ?_⟩
  have counted : (sampleLineage transactions assetId).isComplete = _ :=
    VerifiableLineage.isComplete_ofChain assetId
  rw [counted]
  exact congrArg₂ (fun e r => e.length == r.length) shownEvents shownRecords

/-- Two units of one GTIN share their flat records; a unit without a GTIN has none; and a GTIN with
a colon is read back in part, so that a lineage counts as complete with the record of another
asset. -/
theorem lineage_inexact :
    Shows (sampleLineage [registering "a" (some "1") (some "x"), registering "b" (some "1") (some "y")]
      "GTIN:1:SN:x") ["a"] ["a", "b"] false ∧
    Shows (sampleLineage [registering "a" none (some "x")] "SN:x") ["a"] [] false ∧
    Shows (sampleLineage [registering "a" (some "1:SN:2") none, registering "b" (some "1") none]
      "GTIN:1:SN:2") ["a"] ["b"] true ∧
    (sampleLineage [registering "a" (some "1:SN:2") none, registering "b" (some "1") none]
      "GTIN:1:SN:2").Lacks := by
  have partly : Shows (sampleLineage [registering "a" (some "1:SN:2") none,
      registering "b" (some "1") none] "GTIN:1:SN:2") ["a"] ["b"] true :=
    shows_sampleLineage (by decide) (by decide)
  refine ⟨shows_sampleLineage (by decide) (by decide), shows_sampleLineage (by decide) (by decide),
    partly, ?_⟩
  obtain ⟨events, records, -⟩ := partly
  obtain ⟨event, rest, listed, named, -⟩ := map_eq_cons_iff.mp events
  refine ⟨event, by simp [listed], fun record member same => ?_⟩
  have other := mem_map_of_mem (f := FlatAssetRecord.transactionId) member
  rw [records, mem_singleton, same, named] at other
  exact absurd other (by decide)

end GlassChain
