import GlassChain.Core.Bft
import GlassChain.Identity.Revocation
import GlassChain.Library.Calls

/-!
# Custody of an organization

`export_json` writes an organization's keys, serials, revocations and members to a snapshot;
`import_json` rebuilds it. Serials and keys go through hexadecimal, reasons through their codes, and
the material of the signer is derived again. What comes back answers every call as the organization
did that was exported, so that a history goes on across restarts: no serial is taken twice, and a
revoked one stays dead.

The packages for keys, certificates and JSON are parameters that read back what they wrote. Times
are whole seconds.
-/

namespace GlassChain

open Library List

abbrev Seed := { bytes : Bytes // bytes.length = 32 }

/-- A time that `OffsetDateTime` can hold: the years -9999 to 9999. -/
abbrev OffsetDateTime := { seconds : Int // -377705116800 ≤ seconds ∧ seconds ≤ 253402300799 }

structure RevokedRecord where
  serialHex : String
  revocationTimeUnix : Int
  reasonCode : Nat
deriving Countable

structure MemberRecord where
  nodeId : String
  seedHex : String
  certificatePem : String
deriving Countable

structure OrganizationSnapshot where
  name : String
  rootCaCertPem : String
  caKeyPkcs8DerHex : String
  nextSerial : Nat
  issuedSerials : List (String × String)
  revoked : List RevokedRecord
  members : List MemberRecord
deriving Countable

def revocationReasonFromCode : Nat → RevocationReason
  | 1 => .keyCompromise
  | 2 => .caCompromise
  | 3 => .affiliationChanged
  | 4 => .superseded
  | 5 => .cessationOfOperation
  | 6 => .certificateHold
  | 8 => .removeFromCrl
  | 9 => .privilegeWithdrawn
  | 10 => .aaCompromise
  | _ => .unspecified

def revocationReasonCode : RevocationReason → Nat
  | .unspecified => 0
  | .keyCompromise => 1
  | .caCompromise => 2
  | .affiliationChanged => 3
  | .superseded => 4
  | .cessationOfOperation => 5
  | .certificateHold => 6
  | .removeFromCrl => 8
  | .privilegeWithdrawn => 9
  | .aaCompromise => 10

@[simp] lemma revocationReasonFromCode_code (reason : RevocationReason) :
    revocationReasonFromCode (revocationReasonCode reason) = reason := by
  cases reason <;> rfl

structure Issuer (κ : Type) where
  commonName : String
  organizationName : String
  key : κ

/-- Keys, certificates, PEM, hexadecimal and JSON. -/
structure CaLibrary (κ : Type) where
  serializeDer : κ → Bytes
  fromPkcs8Der : Bytes → Except String κ
  publicKeyRaw : κ → Bytes
  /-- The public key as `ring` reads it from the private one. -/
  ringPublicKey : Bytes → Except String Bytes
  /-- The DER of a self-signed certificate. -/
  selfSigned : Issuer κ → Except String Bytes
  toPem : Bytes → String
  fromPem : String → Except String Bytes
  /-- The subject of a certificate in DER, encoded again. -/
  subjectDer : Bytes → Except String Bytes
  toJson : OrganizationSnapshot → String
  fromJson : String → Except String OrganizationSnapshot
  /-- Why a text is not hexadecimal. -/
  hexError : String → String
  /-- Why a number is not a time. -/
  timeError : Int → String
  fromPkcs8Der_serializeDer : ∀ key, fromPkcs8Der (serializeDer key) = .ok key
  ringPublicKey_serializeDer : ∀ key, ringPublicKey (serializeDer key) = .ok (publicKeyRaw key)
  fromPem_toPem : ∀ der, fromPem (toPem der) = .ok der
  fromJson_toJson : ∀ snapshot, fromJson (toJson snapshot) = .ok snapshot

/-- `map_err` to a certificate failure, after a text. -/
def certGen {α : Type} (what : String) (result : Except String α) : Except IdentityError α :=
  result.mapError fun e => .certGen (what ++ e)

/-- A member, with the seed of its key. -/
structure KeyedIdentity where
  nodeId : String
  seed : Seed
  certificatePem : Option String

structure KeyedOrganization (κ : Type) extends CaBooks where
  rootCaCertPem : String
  caIssuer : Issuer κ
  caKeyPkcs8Der : Bytes
  caSubjectDer : Bytes
  caPublicKey : Bytes
  members : AList fun _ : String => KeyedIdentity

namespace KeyedOrganization

variable {κ : Type} (L : CaLibrary κ)

def rootIssuer (name : String) (key : κ) : Issuer κ := ⟨name ++ " Root CA", name, key⟩

def new (name : String) (generated : Except String κ) : Except IdentityError (KeyedOrganization κ) := do
  let key ← certGen "" generated
  let der ← certGen "" (L.selfSigned (rootIssuer name key))
  let subject ← certGen "" (L.subjectDer der)
  return {
    toCaBooks := .new name
    rootCaCertPem := L.toPem der
    caIssuer := rootIssuer name key
    caKeyPkcs8Der := L.serializeDer key
    caSubjectDer := subject
    caPublicKey := L.publicKeyRaw key
    members := ∅ }

/-- `sign` is what the library makes of the request: the certificate's PEM, or why there is none. -/
def issueIdentityWithRole (o : KeyedOrganization κ) (nodeId : String) (role : Option String)
    (seed : Seed) (sign : Issuer κ → MspCertificate → Seed → Except String String) :
    KeyedOrganization κ × Except IdentityError KeyedIdentity :=
  match sign o.caIssuer ⟨nodeId, o.orgName, role, o.nextSerial⟩ seed with
  | .error reason =>
    ({ o with toCaBooks := (o.toCaBooks.issueIdentityWithRole nodeId role (.error reason)).1 },
      .error (.certGen reason))
  | .ok pem =>
    ({ o with
        toCaBooks := (o.toCaBooks.issueIdentityWithRole nodeId role (.ok ())).1
        members := o.members.insert nodeId ⟨nodeId, seed, some pem⟩ },
      .ok ⟨nodeId, seed, some pem⟩)

def revokeIdentity (o : KeyedOrganization κ) (nodeId : String) (now : OffsetDateTime) :
    KeyedOrganization κ × Except IdentityError Unit :=
  let (b, result) := o.toCaBooks.revokeIdentity nodeId now
  ({ o with toCaBooks := b }, result)

def issueIntermediateCa (o : KeyedOrganization κ) (cn : String)
    (sign : Issuer κ → MspCertificate → Signing) :
    KeyedOrganization κ × Except IdentityError IntermediateCa :=
  let certificate : MspCertificate := ⟨cn, o.orgName, none, o.nextSerial⟩
  ({ o with toCaBooks := o.takeSerial.2 },
    (sign o.caIssuer certificate).result ⟨.new o.orgName, certificate⟩)

/-- A serial is held as the bytes of a `u64`. -/
def serialHex (serial : Nat) : String := hexEncode (beBytes 8 serial)

def memberRecord (entry : Sigma fun _ : String => KeyedIdentity) :
    Except IdentityError MemberRecord :=
  match entry.2.certificatePem with
  | some pem => .ok ⟨entry.1, hexEncode entry.2.seed.1, pem⟩
  | none => .error (.certGen ("member `" ++ entry.1 ++ "` has no certificate to persist"))

def exportJson (o : KeyedOrganization κ) : Except IdentityError String := do
  let members ← o.members.entries.mapM memberRecord
  return L.toJson {
    name := o.orgName
    rootCaCertPem := o.rootCaCertPem
    caKeyPkcs8DerHex := hexEncode o.caKeyPkcs8Der
    nextSerial := o.nextSerial
    issuedSerials := o.issuedSerials.entries.map fun entry => (entry.1, serialHex entry.2)
    revoked := o.revoked.map fun params =>
      { serialHex := serialHex params.serialNumber
        revocationTimeUnix := params.revocationTime
        reasonCode := (params.reasonCode.map revocationReasonCode).getD 0 }
    members := members }

def decodeHex (what text : String) : Except IdentityError Bytes :=
  certGen (what ++ " is not hex: ") ((hexDecode text).elim (.error (L.hexError text)) .ok)

def importSerial (entry : String × String) : Except IdentityError (String × Nat) := do
  let bytes ← decodeHex L "serial" entry.2
  return (entry.1, ofBytes bytes)

def importRevoked (record : RevokedRecord) : Except IdentityError RevokedCertParams := do
  let bytes ← decodeHex L "serial" record.serialHex
  let time := record.revocationTimeUnix
  if -377705116800 ≤ time ∧ time ≤ 253402300799 then
    return ⟨ofBytes bytes, time, some (revocationReasonFromCode record.reasonCode), none⟩
  else throw (.certGen (L.timeError time))

def importMember (record : MemberRecord) : Except IdentityError (String × KeyedIdentity) := do
  let seed ← decodeHex L "seed" record.seedHex
  if length : seed.length = 32 then
    return (record.nodeId, ⟨record.nodeId, ⟨seed, length⟩, some record.certificatePem⟩)
  else throw (.certGen "member seed is not 32 bytes")

def importJson (json : String) : Except IdentityError (KeyedOrganization κ) := do
  let snapshot ← certGen "" (L.fromJson json)
  let caKeyPkcs8Der ← decodeHex L "CA key" snapshot.caKeyPkcs8DerHex
  let key ← certGen "CA key does not restore: " (L.fromPkcs8Der caKeyPkcs8Der)
  let rootDer ← certGen "root CA is not PEM: " (L.fromPem snapshot.rootCaCertPem)
  let caSubjectDer ← certGen "" (L.subjectDer rootDer)
  let caPublicKey ← certGen "CA key does not restore: " (L.ringPublicKey caKeyPkcs8Der)
  let issuedSerials ← snapshot.issuedSerials.mapM (importSerial L)
  let revoked ← snapshot.revoked.mapM (importRevoked L)
  let members ← snapshot.members.mapM (importMember L)
  return {
    orgName := snapshot.name
    nextSerial := snapshot.nextSerial
    issuedSerials := fill ∅ issuedSerials
    revoked := revoked
    rootCaCertPem := snapshot.rootCaCertPem
    caIssuer := rootIssuer snapshot.name key
    caKeyPkcs8Der := caKeyPkcs8Der
    caSubjectDer := caSubjectDer
    caPublicKey := caPublicKey
    members := fill ∅ members }

variable {L} {o o' o'' : KeyedOrganization κ}

/-- The state of an organization that the library has made. -/
structure Sound (L : CaLibrary κ) (o : KeyedOrganization κ) : Prop where
  signer : ∃ key, o.caIssuer = rootIssuer o.orgName key ∧ o.caKeyPkcs8Der = L.serializeDer key ∧
    o.caPublicKey = L.publicKeyRaw key
  root : ∃ der, o.rootCaCertPem = L.toPem der ∧ L.subjectDer der = .ok o.caSubjectDer
  counter : o.nextSerial < 2 ^ 64
  serials : ∀ nodeId serial, o.issuedSerials.lookup nodeId = some serial → serial < 2 ^ 64
  revocations : ∀ r ∈ o.revoked, r.serialNumber < 2 ^ 64 ∧
    (-377705116800 ≤ r.revocationTime ∧ r.revocationTime ≤ 253402300799) ∧
    (∃ reason, r.reasonCode = some reason) ∧ r.invalidityDate = none
  identities : ∀ nodeId member, o.members.lookup nodeId = some member →
    member.nodeId = nodeId ∧ ∃ pem, member.certificatePem = some pem

/-- Both hold the same, their maps in whatever order. -/
structure Same (o o' : KeyedOrganization κ) : Prop where
  orgName : o.orgName = o'.orgName
  nextSerial : o.nextSerial = o'.nextSerial
  issuedSerials : ∀ nodeId, o.issuedSerials.lookup nodeId = o'.issuedSerials.lookup nodeId
  revoked : o.revoked = o'.revoked
  rootCaCertPem : o.rootCaCertPem = o'.rootCaCertPem
  caIssuer : o.caIssuer = o'.caIssuer
  caKeyPkcs8Der : o.caKeyPkcs8Der = o'.caKeyPkcs8Der
  caSubjectDer : o.caSubjectDer = o'.caSubjectDer
  caPublicKey : o.caPublicKey = o'.caPublicKey
  members : ∀ nodeId, o.members.lookup nodeId = o'.members.lookup nodeId

lemma Same.symm (h : o.Same o') : o'.Same o :=
  ⟨h.orgName.symm, h.nextSerial.symm, fun id => (h.issuedSerials id).symm, h.revoked.symm,
    h.rootCaCertPem.symm, h.caIssuer.symm, h.caKeyPkcs8Der.symm, h.caSubjectDer.symm,
    h.caPublicKey.symm, fun id => (h.members id).symm⟩

lemma Same.trans (h : o.Same o') (h' : o'.Same o'') : o.Same o'' :=
  ⟨h.orgName.trans h'.orgName, h.nextSerial.trans h'.nextSerial,
    fun id => (h.issuedSerials id).trans (h'.issuedSerials id), h.revoked.trans h'.revoked,
    h.rootCaCertPem.trans h'.rootCaCertPem, h.caIssuer.trans h'.caIssuer,
    h.caKeyPkcs8Der.trans h'.caKeyPkcs8Der, h.caSubjectDer.trans h'.caSubjectDer,
    h.caPublicKey.trans h'.caPublicKey, fun id => (h.members id).trans (h'.members id)⟩

lemma Sound.of_same (sound : o.Sound L) (same : o.Same o') : o'.Sound L where
  signer := by
    rw [← same.orgName, ← same.caIssuer, ← same.caKeyPkcs8Der, ← same.caPublicKey]
    exact sound.signer
  root := by
    rw [← same.rootCaCertPem, ← same.caSubjectDer]
    exact sound.root
  counter := same.nextSerial ▸ sound.counter
  serials := fun id serial live => sound.serials id serial ((same.issuedSerials id).trans live)
  revocations := same.revoked ▸ sound.revocations
  identities := fun id member found => sound.identities id member ((same.members id).trans found)

@[simp] lemma decodeHex_hexEncode (what : String) (bytes : Bytes) :
    decodeHex L what (hexEncode bytes) = .ok bytes := by
  simp [decodeHex, certGen, Except.mapError]

lemma mapM_map_ok {α β γ ε : Type} {l : List α} {h : α → β} {f : β → Except ε γ} {g : α → γ}
    (ok : ∀ a ∈ l, f (h a) = .ok (g a)) : (l.map h).mapM f = .ok (l.map g) := by
  induction l with
  | nil => rfl
  | cons a l ih =>
    rw [map_cons, mapM_cons, ok a (by simp), ih fun b member => ok b (by simp [member])]
    rfl

/-- What an export writes for the serials is read back. -/
theorem Sound.import_serials (sound : o.Sound L) :
    (o.issuedSerials.entries.map fun e => (e.1, serialHex e.2)).mapM (importSerial L) =
      .ok (o.issuedSerials.entries.map fun e => (e.1, e.2)) := by
  refine mapM_map_ok fun e listed => ?_
  have small : e.2 < 256 ^ 8 := sound.serials e.1 e.2 (AList.mem_lookup_iff.mpr listed)
  rw [importSerial, serialHex, decodeHex_hexEncode]
  change Except.ok (e.1, ofBytes (beBytes 8 e.2)) = _
  rw [ofBytes_beBytes, Nat.mod_eq_of_lt small]

lemma Sound.import_revoked (sound : o.Sound L) :
    (o.revoked.map fun params =>
      { serialHex := serialHex params.serialNumber
        revocationTimeUnix := params.revocationTime
        reasonCode := (params.reasonCode.map revocationReasonCode).getD 0 }).mapM (importRevoked L) =
      .ok o.revoked := by
  have restored : ∀ r ∈ o.revoked, importRevoked L
      { serialHex := serialHex r.serialNumber
        revocationTimeUnix := r.revocationTime
        reasonCode := (r.reasonCode.map revocationReasonCode).getD 0 } = .ok (id r) := by
    intro r listed
    obtain ⟨fits, time, ⟨reason, code⟩, valid⟩ := sound.revocations r listed
    have small : r.serialNumber < 256 ^ 8 := fits
    obtain ⟨serial, seconds, reasonCode, invalidity⟩ := r
    simp only at code valid small time
    subst code valid
    rw [importRevoked, serialHex, decodeHex_hexEncode]
    change (if -377705116800 ≤ seconds ∧ seconds ≤ 253402300799 then Except.ok _ else _) = _
    rw [if_pos time, ofBytes_beBytes, Nat.mod_eq_of_lt small, Option.map_some, Option.getD_some,
      revocationReasonFromCode_code]
    rfl
  rw [mapM_map_ok restored, map_id]

lemma Sound.export_members (sound : o.Sound L) : o.members.entries.mapM memberRecord =
    .ok (o.members.entries.map fun e =>
      ⟨e.1, hexEncode e.2.seed.1, e.2.certificatePem.getD ""⟩) := by
  have made : ∀ e ∈ o.members.entries, memberRecord (id e) =
      .ok ⟨e.1, hexEncode e.2.seed.1, e.2.certificatePem.getD ""⟩ := by
    intro e listed
    obtain ⟨-, pem, certificate⟩ := sound.identities e.1 e.2 (AList.mem_lookup_iff.mpr listed)
    simp [memberRecord, certificate]
  have exported := mapM_map_ok made
  rwa [map_id] at exported

lemma Sound.import_members (sound : o.Sound L) :
    (o.members.entries.map fun e =>
      (⟨e.1, hexEncode e.2.seed.1, e.2.certificatePem.getD ""⟩ : MemberRecord)).mapM
        (importMember L) = .ok (o.members.entries.map fun e => (e.1, e.2)) := by
  refine mapM_map_ok fun e listed => ?_
  obtain ⟨nodeId, nodeId', seed, certificate⟩ := e
  obtain ⟨named, pem, made⟩ := sound.identities _ _ (AList.mem_lookup_iff.mpr listed)
  simp only at named made
  subst named made
  rw [importMember, decodeHex_hexEncode]
  change (if length : seed.1.length = 32 then Except.ok _ else _) = _
  rw [dif_pos seed.2]
  rfl

def refilled (o : KeyedOrganization κ) : KeyedOrganization κ :=
  { o with
    issuedSerials := fill ∅ (o.issuedSerials.entries.map fun e => (e.1, e.2))
    members := fill ∅ (o.members.entries.map fun e => (e.1, e.2)) }

lemma same_refilled (o : KeyedOrganization κ) : o.Same o.refilled :=
  ⟨rfl, rfl, fun id => (lookup_fill_entries o.issuedSerials id).symm, rfl, rfl, rfl, rfl, rfl, rfl,
    fun id => (lookup_fill_entries o.members id).symm⟩

lemma Sound.import_export (sound : o.Sound L) : ∃ json, o.exportJson L = .ok json ∧
    importJson L json = .ok o.refilled := by
  obtain ⟨key, issuer, keyDer, publicKey⟩ := sound.signer
  obtain ⟨der, pem, subject⟩ := sound.root
  have exported := sound.export_members
  refine ⟨_, by rw [exportJson, exported]; rfl, ?_⟩
  simp only [importJson, L.fromJson_toJson, certGen, Except.mapError, decodeHex_hexEncode, keyDer,
    L.fromPkcs8Der_serializeDer, pem, L.fromPem_toPem, subject, L.ringPublicKey_serializeDer,
    sound.import_serials, sound.import_revoked, sound.import_members, bind, Except.bind, pure,
    Except.pure]
  simp only [refilled, ← issuer, ← keyDer, ← publicKey, ← pem]

end KeyedOrganization

/-- A call. What the packages make of it depends on what they are given. -/
inductive CustodyCall (κ : Type) where
  | issueIdentityWithRole (nodeId : String) (role : Option String) (seed : Seed)
      (sign : Issuer κ → MspCertificate → Seed → Except String String)
  | issueIntermediateCa (cn : String) (sign : Issuer κ → MspCertificate → Signing)
  | revokeIdentity (nodeId : String) (now : OffsetDateTime)
  /-- `export_json`, and then `import_json` of what it returned. -/
  | restart
  | ocspResponseDer (nodeId : String) (now : Nat) (mint : Bytes → Bytes → Bytes → Signing)
  | crlPem (now : Int) (sign : Issuer κ → Signing)
  | getMember (nodeId : String)

inductive CustodyAnswer where
  | issued (result : Except IdentityError KeyedIdentity)
  | subordinate (result : Except IdentityError IntermediateCa)
  | done (result : Except IdentityError Unit)
  | staple (result : Except IdentityError OcspResponse)
  | crl (result : Except IdentityError CertificateRevocationList)
  | member (found : Option KeyedIdentity)

def CustodyCall.takesSerial {κ : Type} : CustodyCall κ → Bool
  | issueIdentityWithRole .. | issueIntermediateCa .. => true
  | _ => false

namespace KeyedOrganization

variable {κ : Type} (L : CaLibrary κ)

def perform (o : KeyedOrganization κ) : CustodyCall κ → KeyedOrganization κ × CustodyAnswer
  | .issueIdentityWithRole nodeId role seed sign =>
    (o.issueIdentityWithRole nodeId role seed sign).map id .issued
  | .issueIntermediateCa cn sign => (o.issueIntermediateCa cn sign).map id .subordinate
  | .revokeIdentity nodeId now => (o.revokeIdentity nodeId now).map id .done
  | .restart => match (o.exportJson L).bind (importJson L) with
    | .ok o' => (o', .done (.ok ()))
    | .error e => (o, .done (.error e))
  | .ocspResponseDer nodeId now mint => (o, .staple (o.toCaBooks.ocspResponseDer nodeId now
      (mint o.caSubjectDer o.caPublicKey o.caKeyPkcs8Der)))
  | .crlPem now sign => (o, .crl (o.crlWithValidity now 0 crlValidityDays (sign o.caIssuer)))
  | .getMember nodeId => (o, .member (o.members.lookup nodeId))

def serialsTaken (o : KeyedOrganization κ) : List (CustodyCall κ) → List Nat
  | [] => []
  | call :: calls =>
    (if call.takesSerial then [o.nextSerial] else []) ++ serialsTaken (o.perform L call).1 calls

variable {L} {o o' : KeyedOrganization κ}

lemma new_ok {name : String} {generated : Except String κ}
    (made : new L name generated = .ok o) : o.Sound L ∧ o.toCaBooks = .new name := by
  rcases generated with e | key
  · cases made
  · simp only [new, certGen, Except.mapError, bind, Except.bind] at made
    cases signed : L.selfSigned (rootIssuer name key) with
    | error e => simp [signed] at made
    | ok der =>
      cases read : L.subjectDer der with
      | error e => simp [signed, read] at made
      | ok subject =>
        simp only [signed, read, pure, Except.pure, Except.ok.injEq] at made
        subst made
        refine ⟨⟨⟨key, rfl, rfl, rfl⟩, ⟨der, rfl, read⟩, by simp [CaBooks.new], ?_, ?_, ?_⟩, rfl⟩ <;>
          simp [CaBooks.new]

lemma Sound.perform_restart (sound : o.Sound L) :
    o.perform L .restart = (o.refilled, .done (.ok ())) := by
  obtain ⟨json, exported, imported⟩ := sound.import_export
  simp only [perform, exported, Except.bind, imported]

section

variable (sound : o.Sound L) (call : CustodyCall κ)

include sound call

/-- What a call can do: issue an identity, use up a serial, revoke one, or at most refill the maps.
-/
theorem Sound.perform_cases :
    (call.takesSerial = true ∧ ∃ nodeId seed pem, (o.perform L call).1 = { o with
      nextSerial := (o.nextSerial + 1) % 2 ^ 64
      issuedSerials := o.issuedSerials.insert nodeId o.nextSerial
      members := o.members.insert nodeId ⟨nodeId, seed, some pem⟩ }) ∨
    (call.takesSerial = true ∧
      (o.perform L call).1 = { o with nextSerial := (o.nextSerial + 1) % 2 ^ 64 }) ∨
    (call.takesSerial = false ∧ ∃ nodeId serial, ∃ now : OffsetDateTime,
      o.issuedSerials.lookup nodeId = some serial ∧ (o.perform L call).1 = { o with
        issuedSerials := o.issuedSerials.erase nodeId
        revoked := o.revoked ++ [⟨serial, now, some .keyCompromise, none⟩] }) ∨
    (call.takesSerial = false ∧
      ((o.perform L call).1 = o ∨ (o.perform L call).1 = o.refilled)) := by
  cases call with
  | issueIdentityWithRole nodeId role seed sign =>
    simp only [perform, issueIdentityWithRole]
    cases sign o.caIssuer ⟨nodeId, o.orgName, role, o.nextSerial⟩ seed with
    | error reason => exact .inr (.inl ⟨rfl, rfl⟩)
    | ok pem => exact .inl ⟨rfl, nodeId, seed, pem, rfl⟩
  | issueIntermediateCa cn sign => exact .inr (.inl ⟨rfl, rfl⟩)
  | revokeIdentity nodeId now =>
    simp only [perform, revokeIdentity, CaBooks.revokeIdentity]
    cases known : o.issuedSerials.lookup nodeId with
    | none => exact .inr (.inr (.inr ⟨rfl, .inl rfl⟩))
    | some serial => exact .inr (.inr (.inl ⟨rfl, nodeId, serial, now, known, rfl⟩))
  | restart =>
    rw [sound.perform_restart]
    exact .inr (.inr (.inr ⟨rfl, .inr rfl⟩))
  | _ => exact .inr (.inr (.inr ⟨rfl, .inl rfl⟩))

lemma Sound.perform : (o.perform L call).1.Sound L := by
  have wrapped (n : Nat) : n % 2 ^ 64 < 2 ^ 64 := Nat.mod_lt _ (by decide)
  rcases sound.perform_cases call with ⟨-, nodeId, seed, pem, step⟩ | ⟨-, step⟩ |
    ⟨-, nodeId, serial, now, live, step⟩ | ⟨-, step | step⟩
  · rw [step]
    refine ⟨sound.signer, sound.root, wrapped _, ?_, sound.revocations, ?_⟩
    · intro id n found
      rcases lookup_insert_eq_some.mp found with ⟨-, rfl⟩ | ⟨-, found⟩
      · exact sound.counter
      · exact sound.serials id n found
    · intro id m found
      rcases lookup_insert_eq_some.mp found with ⟨rfl, rfl⟩ | ⟨-, found⟩
      · exact ⟨rfl, pem, rfl⟩
      · exact sound.identities id m found
  · rw [step]
    exact ⟨sound.signer, sound.root, wrapped _, sound.serials, sound.revocations, sound.identities⟩
  · rw [step]
    refine ⟨sound.signer, sound.root, sound.counter, ?_, ?_, sound.identities⟩
    · intro id n found
      exact sound.serials id n (lookup_erase_eq_some.mp found).2
    · intro r listed
      rcases mem_append.mp listed with old | new
      · exact sound.revocations r old
      · obtain rfl := mem_singleton.mp new
        exact ⟨sound.serials _ _ live, now.2, ⟨_, rfl⟩, rfl⟩
  · rw [step]
    exact sound
  · rw [step]
    exact sound.of_same (same_refilled o)

lemma Sound.nextSerial_perform :
    (o.perform L call).1.nextSerial =
      if call.takesSerial then (o.nextSerial + 1) % 2 ^ 64 else o.nextSerial := by
  rcases sound.perform_cases call with ⟨takes, nodeId, seed, pem, step⟩ | ⟨takes, step⟩ |
    ⟨takes, nodeId, serial, now, live, step⟩ | ⟨takes, step | step⟩
  all_goals
    rw [step, takes]
    rfl

end

/-- New books and members in two organizations that hold the same otherwise. -/
theorem Same.update (same : o.Same o') {b b' : CaBooks} {m m' : AList fun _ : String => KeyedIdentity}
    (orgName : b.orgName = b'.orgName) (nextSerial : b.nextSerial = b'.nextSerial)
    (issued : ∀ nodeId, b.issuedSerials.lookup nodeId = b'.issuedSerials.lookup nodeId)
    (revoked : b.revoked = b'.revoked) (members : ∀ nodeId, m.lookup nodeId = m'.lookup nodeId) :
    Same { o with toCaBooks := b, members := m } { o' with toCaBooks := b', members := m' } :=
  ⟨orgName, nextSerial, issued, revoked, same.rootCaCertPem, same.caIssuer, same.caKeyPkcs8Der,
    same.caSubjectDer, same.caPublicKey, members⟩

/-- Organizations that hold the same answer alike, and go on to hold the same. -/
theorem Same.perform (same : o.Same o') (sound : o.Sound L) (call : CustodyCall κ) :
    (o.perform L call).2 = (o'.perform L call).2 ∧
      (o.perform L call).1.Same (o'.perform L call).1 := by
  have advanced : (o.nextSerial + 1) % 2 ^ 64 = (o'.nextSerial + 1) % 2 ^ 64 := by
    rw [same.nextSerial]
  cases call with
  | issueIdentityWithRole nodeId role seed sign =>
    have request : sign o.caIssuer ⟨nodeId, o.orgName, role, o.nextSerial⟩ seed =
        sign o'.caIssuer ⟨nodeId, o'.orgName, role, o'.nextSerial⟩ seed := by
      rw [same.caIssuer, same.orgName, same.nextSerial]
    simp only [KeyedOrganization.perform, issueIdentityWithRole, request]
    cases sign o'.caIssuer ⟨nodeId, o'.orgName, role, o'.nextSerial⟩ seed with
    | error reason =>
      exact ⟨rfl, same.update same.orgName advanced same.issuedSerials same.revoked same.members⟩
    | ok pem =>
      refine ⟨rfl, same.update same.orgName advanced (fun id => ?_) same.revoked fun id =>
        lookup_insert_congr (same.members id)⟩
      change (o.issuedSerials.insert nodeId o.nextSerial).lookup id =
        (o'.issuedSerials.insert nodeId o'.nextSerial).lookup id
      rw [same.nextSerial]
      exact lookup_insert_congr (same.issuedSerials id)
  | issueIntermediateCa cn sign =>
    refine ⟨?_, same.update same.orgName advanced same.issuedSerials same.revoked same.members⟩
    simp only [KeyedOrganization.perform, issueIntermediateCa, same.caIssuer, same.orgName,
      same.nextSerial, Prod.map_snd]
  | revokeIdentity nodeId now =>
    simp only [KeyedOrganization.perform, revokeIdentity, CaBooks.revokeIdentity,
      same.issuedSerials nodeId]
    cases o'.issuedSerials.lookup nodeId with
    | none => exact ⟨rfl, same⟩
    | some serial =>
      refine ⟨rfl, same.update same.orgName same.nextSerial (fun id => ?_)
        (congrArg (· ++ _) same.revoked) same.members⟩
      exact lookup_erase_congr (same.issuedSerials id)
  | restart =>
    rw [sound.perform_restart, (sound.of_same same).perform_restart]
    exact ⟨rfl, (same_refilled o).symm.trans (same.trans (same_refilled o'))⟩
  | ocspResponseDer nodeId now mint =>
    simp only [KeyedOrganization.perform, CaBooks.ocspResponseDer, same.issuedSerials,
      same.caSubjectDer, same.caPublicKey, same.caKeyPkcs8Der]
    exact ⟨trivial, same⟩
  | crlPem now sign =>
    simp only [KeyedOrganization.perform, CaBooks.crlWithValidity, same.revoked, same.caIssuer]
    exact ⟨trivial, same⟩
  | getMember nodeId =>
    simp only [KeyedOrganization.perform, same.members]
    exact ⟨trivial, same⟩

/-- Serials count up from the next one. -/
theorem Sound.serialsTaken_eq (sound : o.Sound L) (calls : List (CustodyCall κ)) :
    o.serialsTaken L calls =
      (List.range (calls.countP CustodyCall.takesSerial)).map fun i =>
        (o.nextSerial + i) % 2 ^ 64 := by
  induction calls generalizing o with
  | nil => rfl
  | cons call calls ih =>
    have small := sound.counter
    rw [serialsTaken, ih (sound.perform call), sound.nextSerial_perform, countP_cons]
    by_cases takes : call.takesSerial = true
    · have first : (o.nextSerial + 0) % 2 ^ 64 = o.nextSerial := by omega
      rw [if_pos takes, if_pos takes, if_pos takes, range_succ_eq_map, map_cons, first,
        map_map, singleton_append]
      refine congrArg _ (map_congr_left fun i _ => ?_)
      simp only [Function.comp_apply]
      omega
    · rw [if_neg takes, if_neg takes, if_neg takes]
      rfl

/-- After `taken` serials: those in the books are among them, one node's each, and live or
revoked. -/
structure Ordered (taken : Nat) (o : KeyedOrganization κ) : Prop where
  counter : o.nextSerial = (taken + 1) % 2 ^ 64
  live : ∀ nodeId serial, o.issuedSerials.lookup nodeId = some serial → serial ≤ taken
  single : ∀ nodeId nodeId' serial, o.issuedSerials.lookup nodeId = some serial →
    o.issuedSerials.lookup nodeId' = some serial → nodeId = nodeId'
  listed : ∀ r ∈ o.revoked, r.serialNumber ≤ taken
  void : ∀ r ∈ o.revoked, ∀ nodeId, o.issuedSerials.lookup nodeId ≠ some r.serialNumber

lemma Ordered.of_same {taken : Nat} (h : o.Ordered taken) (same : o.Same o') :
    o'.Ordered taken where
  counter := same.nextSerial ▸ h.counter
  live := by simpa only [same.issuedSerials] using h.live
  single := by simpa only [same.issuedSerials] using h.single
  listed := same.revoked ▸ h.listed
  void := by simpa only [same.issuedSerials, same.revoked] using h.void

lemma Ordered.perform {taken : Nat} (h : o.Ordered taken) (sound : o.Sound L)
    (call : CustodyCall κ) (few : taken + (if call.takesSerial then 1 else 0) < 2 ^ 64) :
    (o.perform L call).1.Ordered (taken + if call.takesSerial then 1 else 0) := by
  have next (takes : call.takesSerial = true) : o.nextSerial = taken + 1 := by
    rw [if_pos takes] at few
    rw [h.counter, Nat.mod_eq_of_lt few]
  rcases sound.perform_cases call with ⟨takes, nodeId, seed, pem, step⟩ | ⟨takes, step⟩ |
    ⟨takes, nodeId, serial, now, entry, step⟩ | ⟨takes, step | step⟩
  · rw [takes, if_pos rfl, step]
    refine ⟨?_, ?_, ?_, ?_, ?_⟩
    all_goals simp only [lookup_insert_eq_some, ne_eq, next takes]
    · rintro id serial (⟨-, rfl⟩ | ⟨-, found⟩)
      · exact le_rfl
      · exact (h.live id serial found).trans (Nat.le_succ _)
    · rintro id id' serial (⟨rfl, new⟩ | ⟨-, old⟩) (⟨rfl, new'⟩ | ⟨-, old'⟩)
      · rfl
      · have := h.live id' serial old'
        omega
      · have := h.live id serial old
        omega
      · exact h.single id id' serial old old'
    · exact fun r revoked => (h.listed r revoked).trans (Nat.le_succ _)
    · rintro r revoked id (⟨-, new⟩ | ⟨-, old⟩)
      · have := h.listed r revoked
        omega
      · exact h.void r revoked id old
  · rw [takes, if_pos rfl, step]
    refine ⟨by simp only [next takes], ?_, h.single, ?_, h.void⟩
    · exact fun id serial found => (h.live id serial found).trans (Nat.le_succ _)
    · exact fun r revoked => (h.listed r revoked).trans (Nat.le_succ _)
  · rw [takes, if_neg (by decide), step]
    refine ⟨h.counter, ?_, ?_, ?_, ?_⟩
    all_goals simp only [lookup_erase_eq_some, ne_eq, mem_append, mem_singleton]
    · exact fun id n found => h.live id n found.2
    · exact fun id id' n found found' => h.single id id' n found.2 found'.2
    · rintro r (old | rfl)
      · exact h.listed r old
      · exact h.live nodeId serial entry
    · rintro r (old | rfl) id ⟨other, found⟩
      · exact h.void r old id found
      · exact other (h.single id nodeId serial found entry)
  · rw [takes, if_neg (by decide), step]
    exact h
  · rw [takes, if_neg (by decide), step]
    exact h.of_same (same_refilled o)

lemma Sound.revoked_subset (sound : o.Sound L) (call : CustodyCall κ) :
    o.revoked ⊆ (o.perform L call).1.revoked := by
  rcases sound.perform_cases call with ⟨-, nodeId, seed, pem, step⟩ | ⟨-, step⟩ |
    ⟨-, nodeId, serial, now, entry, step⟩ | ⟨-, step | step⟩
  all_goals rw [step]
  · exact List.Subset.refl _
  · exact List.Subset.refl _
  · exact subset_append_left _ _
  · exact List.Subset.refl _
  · exact List.Subset.refl _

lemma Sound.after (sound : o.Sound L) (calls : List (CustodyCall κ)) :
    (Library.after (KeyedOrganization.perform L) o calls).Sound L :=
  after_invariant (fun _ call sound => sound.perform call) sound calls

lemma Sound.revoked_subset_after (sound : o.Sound L) (calls : List (CustodyCall κ)) :
    o.revoked ⊆ (Library.after (KeyedOrganization.perform L) o calls).revoked := by
  induction calls using List.reverseRecOn with
  | nil => exact List.Subset.refl _
  | append_singleton calls call ih =>
    rw [after_concat]
    exact List.Subset.trans ih ((sound.after calls).revoked_subset call)

lemma ordered_after (sound : o.Sound L) (start : o.Ordered 0) (calls : List (CustodyCall κ))
    (few : calls.countP CustodyCall.takesSerial < 2 ^ 64) :
    (Library.after (KeyedOrganization.perform L) o calls).Ordered
      (calls.countP CustodyCall.takesSerial) := by
  induction calls using List.reverseRecOn with
  | nil => exact start
  | append_singleton calls call ih =>
    rw [countP_append, countP_singleton] at few ⊢
    rw [after_concat]
    exact (ih (by omega)).perform (sound.after calls) call few

lemma Same.returned (same : o.Same o') (sound : o.Sound L) (calls : List (CustodyCall κ)) :
    Library.returned (KeyedOrganization.perform L) o calls =
      Library.returned (KeyedOrganization.perform L) o' calls := by
  have keep (a b : KeyedOrganization κ) (call : CustodyCall κ) (related : a.Sound L ∧ a.Same b)
      (_ : True) : id (a.perform L call).2 = id (b.perform L call).2 ∧
        (a.perform L call).1.Sound L ∧ (a.perform L call).1.Same (b.perform L call).1 :=
    have ⟨answer, next⟩ := related.2.perform related.1 call
    ⟨answer, related.1.perform call, next⟩
  have along : Along (KeyedOrganization.perform L) (fun _ _ => True) o' calls :=
    fun _ _ _ => trivial
  simpa using (simulation keep ⟨sound, same⟩ along).1

end KeyedOrganization

open KeyedOrganization in
/-- After any history with fewer serials than there are, an export can be imported and gives an
organization that answers every later call as the exported one does; all serials of the history are
distinct, and what was revoked is not live at its end. -/
theorem custody_round_trip {κ : Type} (L : CaLibrary κ) (name : String)
    (generated : Except String κ) (o : KeyedOrganization κ)
    (made : KeyedOrganization.new L name generated = .ok o) (calls : List (CustodyCall κ))
    (few : calls.countP CustodyCall.takesSerial < 2 ^ 64) :
    let reached := after (KeyedOrganization.perform L) o calls
    (∃ json imported, reached.exportJson L = .ok json ∧ importJson L json = .ok imported ∧
      (∀ nodeId, imported.members.lookup nodeId = reached.members.lookup nodeId) ∧
      (∀ nodeId, imported.issuedSerials.lookup nodeId = reached.issuedSerials.lookup nodeId) ∧
      imported.revoked = reached.revoked ∧ imported.nextSerial = reached.nextSerial ∧
      ∀ later, returned (KeyedOrganization.perform L) imported later =
        returned (KeyedOrganization.perform L) reached later) ∧
    (o.serialsTaken L calls).Nodup ∧
    (∀ front back, calls = front ++ back →
      ∀ r ∈ (after (KeyedOrganization.perform L) o front).revoked, ∀ nodeId,
        reached.issuedSerials.lookup nodeId ≠ some r.serialNumber) ∧
    ∀ front nodeId now back, calls = front ++ .revokeIdentity nodeId now :: back →
      let before := after (KeyedOrganization.perform L) o front
      (before.revokeIdentity nodeId now).2 = .ok () →
      ∃ serial, before.issuedSerials.lookup nodeId = some serial ∧
        (∃ r ∈ reached.revoked, r.serialNumber = serial) ∧
        ∀ other, reached.issuedSerials.lookup other ≠ some serial := by
  intro reached
  obtain ⟨sound, books⟩ := new_ok made
  have kept : reached.Sound L := sound.after calls
  obtain ⟨json, exported, imported⟩ := kept.import_export
  have same := same_refilled reached
  have start : o.Ordered 0 := by
    refine ⟨by rw [books]; rfl, ?_, ?_, ?_, ?_⟩ <;> rw [books] <;> simp [CaBooks.new]
  have dead := (ordered_after sound start calls few).void
  have listed (front back : List (CustodyCall κ)) (split : calls = front ++ back)
      {r : RevokedCertParams}
      (revoked : r ∈ (after (KeyedOrganization.perform L) o front).revoked) : r ∈ reached.revoked := by
    have later := (sound.after front).revoked_subset_after back revoked
    rwa [← after_append, ← split] at later
  refine ⟨⟨json, reached.refilled, exported, imported, fun id => (same.members id).symm,
    fun id => (same.issuedSerials id).symm, rfl, rfl, fun later => ?_⟩, ?_, ?_, ?_⟩
  · exact (same.returned kept later).symm
  · rw [sound.serialsTaken_eq, books]
    refine Nodup.map_on (fun i inside j inside' same => ?_) nodup_range
    simp only [CaBooks.new, mem_range] at same inside inside'
    omega
  · rintro front back rfl r revoked
    exact dead r (listed front back rfl revoked)
  · rintro front nodeId now back split before ok
    have performed : (before.perform L (.revokeIdentity nodeId now)).1 =
        (before.revokeIdentity nodeId now).1 := rfl
    cases live : before.issuedSerials.lookup nodeId with
    | none => simp [KeyedOrganization.revokeIdentity, CaBooks.revokeIdentity, live] at ok
    | some serial =>
      have now : (⟨serial, now, some .keyCompromise, none⟩ : RevokedCertParams) ∈ reached.revoked := by
        refine listed (front ++ [.revokeIdentity nodeId now]) back (by simp [split]) ?_
        rw [after_concat, performed]
        simp [KeyedOrganization.revokeIdentity, CaBooks.revokeIdentity, live]
      exact ⟨serial, rfl, ⟨_, now, rfl⟩, dead _ now⟩

noncomputable def snapshotText (snapshot : OrganizationSnapshot) : String :=
  Externals.unary ((Countable.exists_injective_nat OrganizationSnapshot).choose snapshot)

lemma snapshotText_injective : Function.Injective snapshotText :=
  Externals.unary_injective.comp (Countable.exists_injective_nat OrganizationSnapshot).choose_spec

/-- Keys are their own encodings. -/
noncomputable def plainCa : CaLibrary Bytes where
  serializeDer := id
  fromPkcs8Der := .ok
  publicKeyRaw := id
  ringPublicKey := .ok
  selfSigned _ := .ok []
  toPem := hexEncode
  fromPem text := (hexDecode text).elim (.error "not PEM") .ok
  subjectDer der := .ok der
  toJson := snapshotText
  fromJson text := (Function.partialInv snapshotText text).elim (.error "unreadable snapshot") .ok
  hexError _ := "odd length"
  timeError _ := "out of range"
  fromPkcs8Der_serializeDer _ := rfl
  ringPublicKey_serializeDer _ := rfl
  fromPem_toPem der := by simp
  fromJson_toJson snapshot := by simp [Function.partialInv_left snapshotText_injective]

def sampleIssue : CustodyCall Bytes :=
  .issueIdentityWithRole "node-1" none ⟨List.replicate 32 7, rfl⟩ fun _ _ _ => .ok "PEM"

def sampleRevoke : CustodyCall Bytes := .revokeIdentity "node-1" ⟨0, by decide⟩

/-- The serial that `node-1` lost before a restart is listed, and live for no node after its
identity is issued anew. -/
theorem custody_sample :
    ∃ o, KeyedOrganization.new plainCa "Farm" (.ok [5]) = .ok o ∧
      let reached := after (KeyedOrganization.perform plainCa) o
        [sampleIssue, sampleRevoke, .restart, sampleIssue]
      ∃ serial, (∃ r ∈ reached.revoked, r.serialNumber = serial) ∧
        ∀ nodeId, reached.issuedSerials.lookup nodeId ≠ some serial := by
  refine ⟨_, rfl, ?_⟩
  obtain ⟨serial, -, listed, dead⟩ := (custody_round_trip plainCa "Farm" (.ok [5]) _ rfl
    [sampleIssue, sampleRevoke, .restart, sampleIssue] (by decide)).2.2.2
    [sampleIssue] "node-1" ⟨0, by decide⟩ [.restart, sampleIssue] rfl rfl
  exact ⟨serial, listed, dead⟩

end GlassChain
