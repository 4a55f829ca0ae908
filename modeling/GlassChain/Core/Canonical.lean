import GlassChain.Core.Basic

/-!
# Canonical schema v1

The static record families and extension namespaces, and `validate_record`: one linear validator
that returns the first rule a record breaks. The registry is the v1 table; registries extended at
run time are not reachable from the ledger.
-/

namespace GlassChain

inductive ExtensionFieldType where
  | string | integer | number | boolean | object | array
  deriving DecidableEq, Repr

structure NamespaceDescriptor where
  name : String
  version : Nat
  isPrivate : Bool
  required : List String
  properties : List (String × ExtensionFieldType)

structure SchemaDescriptor where
  schemaId : String
  version : Nat
  required : List String
  optional : List String
  anchored : Bool
  statusValues : Option (List String)
  deriving DecidableEq, Repr

def plainFamily (schemaId : String) (required : List String) : SchemaDescriptor :=
  ⟨schemaId, 1, required, [], false, none⟩

def attestationFields : List String :=
  ["lot_ref", "issuer", "scope", "valid_from", "valid_to", "status", "evidence_manifest"]

def schemaV1 : List SchemaDescriptor := [
  plainFamily "party_identity" ["org_id", "legal_name"],
  plainFamily "product" ["product_id", "gtin", "product_name"],
  ⟨"lot", 1, ["lot_id", "product_id", "batch_number"], ["expiry_date"], true, none⟩,
  plainFamily "inventory_threshold" ["trigger_id", "product_id", "owner_id", "reorder_threshold"],
  plainFamily "purchase_order" ["product_id", "buyer_id", "seller_id", "quantity", "currency"],
  plainFamily "shipment" ["lot_ref", "from_org", "to_org"],
  plainFamily "transit_event" ["shipment_ref", "event_type", "location"],
  plainFamily "delivery_receipt" ["shipment_ref", "receiver_id", "received_at"],
  plainFamily "inventory_transformation" ["lot_ref", "transformation_type"],
  ⟨"recall", 1, ["lot_ref", "reason", "status", "issued_by"], [], false,
    some ["issued", "active", "completed"]⟩,
  ⟨"quality_certification", 1, attestationFields, [], true,
    some ["valid", "suspended", "revoked"]⟩,
  ⟨"audit_attestation", 1, attestationFields, [], true, some ["valid", "suspended", "revoked"]⟩,
  ⟨"state_commitment", 1, ["merkle_root", "counterparties"], ["aggregation_ratio"], true, none⟩]

def namespaceV1 : List NamespaceDescriptor := [⟨"anvisa", 1, false, [], []⟩]

/-- Envelope and payload keys an extension may not shadow. -/
def coreFieldNames : List String := [
  "record_id", "schema_id", "schema_version", "commitment", "occurred_at", "issuer", "signatures",
  "pdc_ref", "extensions", "payload", "org_id", "legal_name", "product_id", "gtin", "product_name",
  "lot_id", "batch_number", "expiry_date", "trigger_id", "owner_id", "reorder_threshold",
  "buyer_id", "seller_id", "quantity", "currency", "lot_ref", "from_org", "to_org",
  "shipment_ref", "event_type", "location", "receiver_id", "received_at", "transformation_type",
  "reason", "status", "issued_by", "scope", "valid_from", "valid_to", "evidence_manifest",
  "manifest_commitment", "merkle_root", "counterparties", "aggregation_ratio"]

def legacyAssetKeys : List String :=
  ["gtin", "batch_number", "expiry_date", "serial_number", "anvisa_registration",
    "manufacturer_id"]

def isDigit (b : UInt8) : Bool := 48 ≤ b && b ≤ 57

def isHexDigit (b : UInt8) : Bool := isDigit b || (65 ≤ b && b ≤ 70) || (97 ≤ b && b ≤ 102)

def isHex64 (s : String) : Bool := (utf8 s).length == 64 && (utf8 s).all isHexDigit

/-- `str::parse` for an unsigned type with maximum `max`: an optional plus sign, then digits. -/
def parseUnsigned (max : Nat) (s : Bytes) : Option Nat :=
  let digits := match s with
    | 43 :: rest => rest
    | _ => s
  if digits.isEmpty || !digits.all isDigit then none
  else
    let value := digits.foldl (fun n b => 10 * n + (b.toNat - 48)) 0
    if value ≤ max then some value else none

/-- The `YYYY-MM-DD` check; it accepts February 30. -/
def isValidIso8601Date (s : String) : Bool :=
  let bytes := utf8 s
  if bytes.length ≠ 10 then false
  else if bytes[4]? ≠ some 45 || bytes[7]? ≠ some 45 then false
  else
    match parseUnsigned 65535 (bytes.take 4), parseUnsigned 255 ((bytes.drop 5).take 2),
      parseUnsigned 255 ((bytes.drop 8).take 2) with
    | some year, some month, some day =>
      1900 ≤ year && 1 ≤ month && month ≤ 12 && 1 ≤ day && day ≤ 31
    | _, _, _ => false

def isPresent : Option Value → Bool
  | some (.string s) => s ≠ ""
  | some .null | none => false
  | some _ => true

def matchesType (value : Value) : ExtensionFieldType → Bool
  | .string => (value matches .string _)
  | .integer => (value matches .number (.posInt _)) || (value matches .number (.negInt _))
  | .number => (value matches .number _)
  | .boolean => (value matches .bool _)
  | .object => (value matches .object _)
  | .array => (value matches .array _)

/-- Three or more `TraceableAsset` keys mark a smuggled legacy asset. -/
def looksLikeLegacyAsset (payload : List (String × Value)) : Bool :=
  3 ≤ (legacyAssetKeys.filter fun key => (lookup key payload).isSome).length

def payloadStr (payload : List (String × Value)) (key : String) : String :=
  ((lookup key payload).bind Value.asStr).getD ""

/-- `{:?}` of a list of identifiers. -/
def debugStrings (l : List String) : String :=
  "[" ++ ", ".intercalate (l.map fun s => "\"" ++ s ++ "\"") ++ "]"

def recordError (schemaId message : String) : CoreError :=
  .invalidTransaction s!"canonical record {schemaId}: {message}"

/-- `if bad then return Err(..)`. -/
def require (ok : Bool) (error : CoreError) : Except CoreError Unit :=
  if ok then .ok () else .error error

namespace CanonicalRecord

def content (r : CanonicalRecord) : RecordContent :=
  ⟨r.recordId, r.schemaId, r.schemaVersion, r.occurredAt, r.issuer, r.pdcRef, r.payload,
    r.extensions⟩

def computedCommitment (X : Externals) (r : CanonicalRecord) : String :=
  X.sha256 (utf8 (X.recordJson r.content))

end CanonicalRecord

variable (r : CanonicalRecord)

def validateEnvelope : Except CoreError Unit := do
  require (r.recordId ≠ "") (recordError r.schemaId "record_id must not be empty")
  require (r.issuer ≠ "") (recordError r.schemaId "issuer must not be empty")
  require (!r.signatures.isEmpty) (recordError r.schemaId "at least one signature is required")
  require (r.schemaVersion ≠ 0)
    (recordError r.schemaId "schema version 0 is not a valid version")

def lookupSchema (schemaId : String) (version : Nat) : Option SchemaDescriptor :=
  schemaV1.find? fun d => d.schemaId == schemaId && d.version == version

/-- The error distinguishes an unknown family from an unknown version of a known one. -/
def findSchema : Except CoreError SchemaDescriptor :=
  match lookupSchema r.schemaId r.schemaVersion with
  | some descriptor => .ok descriptor
  | none =>
    if schemaV1.any fun d => d.schemaId == r.schemaId then
      .error (recordError r.schemaId s!"unsupported schema version {r.schemaVersion}")
    else
      .error (recordError r.schemaId s!"unknown schema {r.schemaId}/v{r.schemaVersion}")

def validateRequired (d : SchemaDescriptor) (payload : List (String × Value)) :
    Except CoreError Unit :=
  match d.required.find? fun key => !isPresent (lookup key payload) with
  | some key => .error (recordError d.schemaId s!"missing required field '{key}'")
  | none => .ok ()

def validateWhitelist (d : SchemaDescriptor) (payload : List (String × Value)) :
    Except CoreError Unit :=
  match payload.find? fun e => !(d.required ++ d.optional).contains e.1 with
  | some (unknown, _) => .error (recordError d.schemaId
      s!"unknown payload field '{unknown}' (use a registered extension namespace)")
  | none => .ok ()

def validateProduct (payload : List (String × Value)) : Except CoreError Unit :=
  let gtin := utf8 (payloadStr payload "gtin")
  require ((gtin.length == 13 || gtin.length == 14) && gtin.all isDigit)
    (recordError "product" "gtin must be 13 or 14 numeric digits")

def validateDeliveryReceipt (payload : List (String × Value)) : Except CoreError Unit :=
  require (isValidIso8601Date (payloadStr payload "received_at"))
    (recordError "delivery_receipt" "received_at must be an ISO-8601 date (YYYY-MM-DD)")

def validateAttestation (schemaId : String) (payload : List (String × Value)) :
    Except CoreError Unit := do
  let validFrom := payloadStr payload "valid_from"
  let validTo := payloadStr payload "valid_to"
  require (isValidIso8601Date validFrom && isValidIso8601Date validTo)
    (recordError schemaId "valid_from and valid_to must be ISO-8601 dates (YYYY-MM-DD)")
  require (!decide (validTo < validFrom))
    (recordError schemaId "valid_to must not precede valid_from")
  let manifest := (lookup "evidence_manifest" payload).bind Value.asObject
  require (isHex64 (payloadStr (manifest.getD []) "manifest_commitment"))
    (recordError schemaId "evidence_manifest.manifest_commitment must be a 64-hex commitment")

def validateStateCommitment : Except CoreError Unit := do
  require (isHex64 (payloadStr r.payload "merkle_root"))
    (recordError "state_commitment" "merkle_root must be a 64-hex commitment")
  match (lookup "counterparties" r.payload).bind Value.asArray with
  | none => throw (recordError "state_commitment" "counterparties must be an array")
  | some counterparties =>
    require (!counterparties.isEmpty &&
        counterparties.all fun c => c.asStr.any fun s => s ≠ "")
      (recordError "state_commitment"
        "counterparties must name at least one non-empty organization")
    require (counterparties.length ≤ r.signatures.length)
      (recordError "state_commitment"
        "signature set must carry at least one signature per counterparty")
    match lookup "aggregation_ratio" r.payload with
    | some (.number ratio) =>
      require (decide (1 ≤ ratio.asU64.getD 0))
        (recordError "state_commitment" "aggregation_ratio must be at least 1 when present")
    | _ => pure ()

def validateFamily (d : SchemaDescriptor) (r : CanonicalRecord) : Except CoreError Unit :=
  match d.schemaId with
  | "product" => validateProduct r.payload
  | "delivery_receipt" => validateDeliveryReceipt r.payload
  | "quality_certification" | "audit_attestation" => validateAttestation d.schemaId r.payload
  | "state_commitment" => validateStateCommitment r
  | _ => .ok ()

def validateStatus (d : SchemaDescriptor) (payload : List (String × Value)) :
    Except CoreError Unit :=
  match d.statusValues with
  | none => .ok ()
  | some values =>
    let status := payloadStr payload "status"
    require (values.contains status) (recordError d.schemaId
      s!"status '{status}' is not in the v1 vocabulary {debugStrings values}")

def validateAnchor (X : Externals) (d : SchemaDescriptor) (r : CanonicalRecord) :
    Except CoreError Unit :=
  if d.anchored then
    match r.commitment with
    | none => .error (recordError d.schemaId "anchored family requires a commitment")
    | some commitment => require (commitment == r.computedCommitment X)
        (recordError d.schemaId "commitment does not match the canonical record form")
  else require r.commitment.isNone
    (recordError d.schemaId "commitment is only allowed on anchored families")

/-- A private namespace anchors exactly one commitment behind a `pdc_ref`. -/
def validatePrivateExtension (name : String) (extension : ExtensionValue) :
    Except CoreError Unit := do
  require (r.pdcRef.any fun p => p ≠ "") (recordError r.schemaId
    s!"private extension namespace '{name}' requires a pdc_ref on the record")
  require (extension.value.length == 1) (recordError r.schemaId
    s!"private extension namespace '{name}' must carry exactly a 'commitment'")
  require (isHex64 (payloadStr extension.value "commitment")) (recordError r.schemaId
    s!"private extension namespace '{name}' commitment must be 64 hex characters")

def validateExtension (name : String) (extension : ExtensionValue) :
    Except CoreError Unit := do
  match namespaceV1.find? fun d => d.name == name with
  | none => throw (recordError r.schemaId s!"unknown extension namespace '{name}'")
  | some d =>
    require (extension.schemaVersion == d.version) (recordError r.schemaId
      s!"extension namespace '{name}' uses unsupported version {extension.schemaVersion}")
    match extension.value.find? fun e => e.1 ≠ "commitment" && coreFieldNames.contains e.1 with
    | some (key, _) => throw (recordError r.schemaId
        s!"extension namespace '{name}' shadows core field '{key}'")
    | none => pure ()
    match d.required.find? fun key => !isPresent (lookup key extension.value) with
    | some key => throw (recordError r.schemaId
        s!"extension namespace '{name}' missing required field '{key}'")
    | none => pure ()
    match d.properties.find? fun p => !(lookup p.1 extension.value).all (matchesType · p.2) with
    | some (field, _) => throw (recordError r.schemaId
        s!"extension namespace '{name}' field '{field}' has the wrong type")
    | none => pure ()
    if d.isPrivate then validatePrivateExtension r name extension

/-- The first rule `r` breaks, in the source's order. -/
def validateRecord (X : Externals) (r : CanonicalRecord) : Except CoreError Unit := do
  validateEnvelope r
  let descriptor ← findSchema r
  require (!looksLikeLegacyAsset r.payload) (recordError descriptor.schemaId
    ("payload is TraceableAsset-shaped: legacy assets are not valid v1 records; migrate with " ++
      "`migrate_legacy_asset` and re-register as product + lot records"))
  validateRequired descriptor r.payload
  validateWhitelist descriptor r.payload
  validateFamily descriptor r
  validateStatus descriptor r.payload
  validateAnchor X descriptor r
  r.extensions.forM fun e => validateExtension r e.1 e.2

end GlassChain
