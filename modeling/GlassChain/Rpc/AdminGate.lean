import GlassChain.Core.Authorization
import GlassChain.Core.Text

/-!
# The gate for administrators

An administrator's client signs `"{node_id}:{timestamp}"` and sends the signature with its
certificate; `AdminGate::authorize` verifies both. The headers of an ordinary authenticated call
hold a signature over the same text under the same key, certificates are public, and the gate keeps
no record of what it has admitted.

The packages for certificates and signatures are parameters. Histories list the calls of honest
clients, the requests that reach the gate, from whomever, and the reloads of its trust store.
-/

namespace GlassChain

open Library List

inductive Status where
  | permissionDenied (message : String)
  | unauthenticated (message : String)
  deriving DecidableEq, Repr

/-- `ok_or_else`. -/
def Status.require {α : Type} (status : Status) (found : Option α) : Except Status α :=
  match found with
  | some a => .ok a
  | none => .error status

def Status.check (status : Status) (holds : Bool) : Except Status Unit :=
  if holds then .ok () else .error status

abbrev MetadataMap := String → Option Bytes

/-- `MetadataValue::to_str`: visible ASCII and tabs. -/
def headerText (value : Bytes) : Option String :=
  if value.all fun b => b == 9 || 32 ≤ b && b < 127 then
    some (String.ofList (value.map fun b => Char.ofNat b.toNat))
  else none

def MetadataMap.text (metadata : MetadataMap) (name : String) : Option String :=
  (metadata name).bind headerText

/-- Keys, signatures and the contents of certificates. -/
structure RpcCrypto where
  ed25519 : Ed25519
  /-- The verifying key of a seed. -/
  publicKey : Bytes → Bytes
  /-- The signature of a seed over a message. -/
  sign : Bytes → Bytes → Bytes
  base64Encode : Bytes → String
  base64Decode : String → Option Bytes
  pemToDer : String → Except String Bytes
  certificateSubjectCn : String → Option String
  certificateEd25519PublicKeyDer : Bytes → Option Bytes
  certificateAdminRoleDer : Bytes → Option String

/-- A trust store, at a Unix second. -/
structure CertChainVerifier where
  verifyCertDer : Nat → Bytes → Except String Unit
  verifiedSubjectCn : Nat → Bytes → Except String String

structure AdminGate where
  verifier : CertChainVerifier
  skewSecs : Nat

def adminRole : String := "admin"

def certHeader : String := "x-glasschain-cert"

def authChallenge (nodeId ts : String) : Bytes := utf8 (nodeId ++ ":" ++ ts)

variable (K : RpcCrypto)

namespace AdminGate

def new (verifier : CertChainVerifier) : AdminGate := ⟨verifier, 60⟩

def updateVerifier (g : AdminGate) (verifier : CertChainVerifier) : AdminGate := { g with verifier }

def authorize (g : AdminGate) (metadata : MetadataMap) (now : Nat) : Except Status String := do
  let nodeId ← (Status.permissionDenied "missing x-glasschain-node-id").require
    (metadata.text "x-glasschain-node-id")
  let tsStr ← (Status.permissionDenied "missing x-glasschain-auth-ts").require
    (metadata.text "x-glasschain-auth-ts")
  let sigHex ← (Status.permissionDenied "missing x-glasschain-auth-sig").require
    (metadata.text "x-glasschain-auth-sig")
  let certB64 ← (Status.permissionDenied
    (s!"missing {certHeader}: an admin operation requires an organization certificate")).require
    (metadata.text certHeader)
  let ts ← (Status.permissionDenied "invalid timestamp format").require (parseU64 tsStr)
  (Status.permissionDenied "token expired").check (max now ts - min now ts ≤ g.skewSecs)
  let certDer ← (Status.permissionDenied "certificate is not valid base64").require
    (K.base64Decode certB64)
  (g.verifier.verifyCertDer now certDer).mapError fun e =>
    .permissionDenied ("certificate verification failed: " ++ e)
  let cn ← (g.verifier.verifiedSubjectCn now certDer).mapError fun e =>
    .permissionDenied ("certificate subject CN missing: " ++ e)
  (Status.permissionDenied s!"certificate CN '{cn}' does not match node id '{nodeId}'").check
    (cn == nodeId)
  let publicKey ← (Status.permissionDenied "certificate carries no ed25519 public key").require
    (K.certificateEd25519PublicKeyDer certDer)
  let sigBytes ← (Status.permissionDenied "invalid signature encoding").require
    ((hexDecode sigHex).filter (·.length == 64))
  (Status.permissionDenied "invalid certificate public key").check (K.ed25519.validKey publicKey)
  (Status.permissionDenied "signature verification failed").check
    (K.ed25519.verify publicKey (authChallenge nodeId tsStr) sigBytes)
  (Status.permissionDenied
    s!"certificate does not carry the admin role (OU={adminRole} required)").check
    (K.certificateAdminRoleDer certDer == some adminRole)
  return cn

end AdminGate

structure MspAuthInterceptor where
  registry : String → Option Bytes
  requireAuth : Bool

def MspAuthInterceptor.verifyRequest (a : MspAuthInterceptor) (metadata : MetadataMap) (now : Nat) :
    Except Status Unit := do
  if !((metadata "x-glasschain-node-id").isSome || (metadata "x-glasschain-auth-ts").isSome ||
      (metadata "x-glasschain-auth-sig").isSome) then
    (Status.unauthenticated "missing x-glasschain auth headers").check (!a.requireAuth)
  else
    let nodeId ← (Status.unauthenticated "missing or invalid x-glasschain-node-id").require
      (metadata.text "x-glasschain-node-id")
    let tsStr ← (Status.unauthenticated "missing or invalid x-glasschain-auth-ts").require
      (metadata.text "x-glasschain-auth-ts")
    let sigHex ← (Status.unauthenticated "missing or invalid x-glasschain-auth-sig").require
      (metadata.text "x-glasschain-auth-sig")
    let ts ← (Status.unauthenticated "invalid timestamp format").require (parseU64 tsStr)
    (Status.unauthenticated "token expired").check (max now ts - min now ts ≤ 60)
    let sigBytes ← (Status.unauthenticated "invalid signature encoding").require
      ((hexDecode sigHex).filter (·.length == 64))
    let publicKey ← (Status.unauthenticated "unknown node").require (a.registry nodeId)
    (Status.unauthenticated "invalid public key in registry").check (K.ed25519.validKey publicKey)
    (Status.unauthenticated "signature verification failed").check
      (K.ed25519.verify publicKey (authChallenge nodeId tsStr) sigBytes)

def msgHeaders (nodeId ts sigHex : String) : List (String × String) :=
  [("x-glasschain-node-id", nodeId), ("x-glasschain-auth-ts", ts),
    ("x-glasschain-auth-sig", sigHex)]

def adminHeadersFromCert (certPem : String) (seed : Bytes) (now : Nat) :
    Except String (List (String × String)) :=
  match K.certificateSubjectCn certPem with
  | none => .error "certificate carries no subject CN"
  | some nodeId =>
    let ts := toString now
    let sigHex := hexEncode (K.sign seed (authChallenge nodeId ts))
    match K.pemToDer certPem with
    | .error e => .error ("certificate is not PEM: " ++ e)
    | .ok certDer => .ok (msgHeaders nodeId ts sigHex ++ [(certHeader, K.base64Encode certDer)])

/-- `AuthTokenBuilder::build_headers`; the text of the key parser is left out. -/
def buildHeaders (signingKeyBytes verifyingKeyBytes : Bytes) (nodeId : String) (now : Nat) :
    Except String (List (String × String)) :=
  if K.ed25519.validKey verifyingKeyBytes then
    let ts := toString now
    .ok (msgHeaders nodeId ts (hexEncode (K.sign signingKeyBytes (authChallenge nodeId ts))))
  else .error "invalid verifying key bytes"

@[simp] lemma Status.require_eq_ok {α : Type} {status : Status} {found : Option α} {a : α} :
    status.require found = .ok a ↔ found = some a := by
  cases found <;> simp [Status.require]

@[simp] lemma Status.check_eq_ok {status : Status} {holds : Bool} {u : Unit} :
    status.check holds = .ok u ↔ holds = true := by
  cases holds <;> simp [Status.check]

/-- A request that is admitted, with what it carries. -/
structure AdminGate.Admits (g : AdminGate) (metadata : MetadataMap) (now : Nat)
    (nodeId tsStr sigHex certB64 : String) (ts : Nat) (certDer publicKey sigBytes : Bytes) :
    Prop where
  node : metadata.text "x-glasschain-node-id" = some nodeId
  stamp : metadata.text "x-glasschain-auth-ts" = some tsStr
  signature : metadata.text "x-glasschain-auth-sig" = some sigHex
  certificate : metadata.text certHeader = some certB64
  parsed : parseU64 tsStr = some ts
  recent : max now ts - min now ts ≤ g.skewSecs
  decoded : K.base64Decode certB64 = some certDer
  trusted : g.verifier.verifyCertDer now certDer = .ok ()
  named : g.verifier.verifiedSubjectCn now certDer = .ok nodeId
  key : K.certificateEd25519PublicKeyDer certDer = some publicKey
  bytes : hexDecode sigHex = some sigBytes
  width : sigBytes.length = 64
  valid : K.ed25519.validKey publicKey = true
  verified : K.ed25519.verify publicKey (authChallenge nodeId tsStr) sigBytes = true
  role : K.certificateAdminRoleDer certDer = some adminRole

variable {metadata : MetadataMap} {now : Nat}

/-- A request is authorized iff it passes every check. -/
lemma AdminGate.authorize_eq_ok {g : AdminGate} {cn : String} :
    g.authorize K metadata now = .ok cn ↔
      ∃ tsStr sigHex certB64 ts certDer publicKey sigBytes,
        g.Admits K metadata now cn tsStr sigHex certB64 ts certDer publicKey sigBytes := by
  simp only [authorize, bind_eq_ok, Status.require_eq_ok, Status.check_eq_ok, mapError_eq_ok,
    Unique.exists_iff, PUnit.default_eq_unit, beq_iff_eq, decide_eq_true_eq, pure, Except.pure,
    Except.ok.injEq, Option.filter_eq_some_iff]
  constructor
  · rintro ⟨nodeId, node, tsStr, stamp, sigHex, signature, certB64, certificate, ts, parsed, recent,
      certDer, decoded, trusted, cn', named, rfl, publicKey, key, sigBytes, ⟨bytes, width⟩, valid,
      verified, role, rfl⟩
    exact ⟨tsStr, sigHex, certB64, ts, certDer, publicKey, sigBytes, node, stamp, signature,
      certificate, parsed, recent, decoded, trusted, named, key, bytes, width, valid, verified,
      role⟩
  · rintro ⟨tsStr, sigHex, certB64, ts, certDer, publicKey, sigBytes, h⟩
    exact ⟨cn, h.node, tsStr, h.stamp, sigHex, h.signature, certB64, h.certificate, ts, h.parsed,
      h.recent, certDer, h.decoded, h.trusted, cn, h.named, rfl, publicKey, h.key, sigBytes,
      ⟨h.bytes, h.width⟩, h.valid, h.verified, h.role, rfl⟩

variable {nodeId : String}

/-- A timestamp has no colon, so the challenge splits one way. -/
lemma authChallenge_injective {nodeId' ts ts' : String} (clean : ':' ∉ ts.toList)
    (clean' : ':' ∉ ts'.toList) (same : authChallenge nodeId ts = authChallenge nodeId' ts') :
    nodeId = nodeId' ∧ ts = ts' := by
  have texts : nodeId.toList ++ ':' :: ts.toList = nodeId'.toList ++ ':' :: ts'.toList := by
    simpa using congrArg String.toList (utf8_injective same)
  obtain ⟨nodes, stamps⟩ := joined_inj_last clean clean' texts
  exact ⟨String.toList_inj.mp nodes, String.toList_inj.mp stamps⟩

inductive RpcEvent where
  | adminHeadersFromCert (certPem : String) (seed : Bytes) (now : Nat)
  | buildHeaders (signingKeyBytes verifyingKeyBytes : Bytes) (nodeId : String) (now : Nat)
  | updateVerifier (verifier : CertChainVerifier)
  | request (metadata : MetadataMap) (now : Nat)

/-- A client's call returns a signature: the key it is for, the message and the bytes. -/
inductive Signs : RpcEvent → Bytes → Bytes → Bytes → Prop
  | admin {certPem seed now headers nodeId} :
      adminHeadersFromCert K certPem seed now = .ok headers →
      K.certificateSubjectCn certPem = some nodeId →
      Signs (.adminHeadersFromCert certPem seed now) (K.publicKey seed)
        (authChallenge nodeId (toString now)) (K.sign seed (authChallenge nodeId (toString now)))
  | ordinary {signing verifying nodeId now headers} :
      buildHeaders K signing verifying nodeId now = .ok headers →
      Signs (.buildHeaders signing verifying nodeId now) (K.publicKey signing)
        (authChallenge nodeId (toString now)) (K.sign signing (authChallenge nodeId (toString now)))

lemma Signs.not_request {key message signature : Bytes} :
    ¬Signs K (.request metadata now) key message signature := nofun

lemma Signs.not_updateVerifier {verifier : CertChainVerifier} {key message signature : Bytes} :
    ¬Signs K (.updateVerifier verifier) key message signature := nofun

def signatureOf (text : String → Option String) : Option Bytes :=
  (text "x-glasschain-auth-sig").bind hexDecode

def headerSet (text : String → Option String) : Option (String × String × Bytes × String) := do
  let nodeId ← text "x-glasschain-node-id"
  let ts ← text "x-glasschain-auth-ts"
  let sigBytes ← signatureOf text
  let cert ← text certHeader
  return (nodeId, ts, sigBytes, cert)

section History

variable (g : AdminGate) (events : List RpcEvent)

def gateAt (i : Nat) : AdminGate :=
  (events.take i).foldl (fun g e => match e with
    | .updateVerifier verifier => g.updateVerifier verifier
    | _ => g) g

def Accepted (i : Nat) (metadata : MetadataMap) (now : Nat) : Prop :=
  events[i]? = some (RpcEvent.request metadata now) ∧
    ∃ cn, (gateAt g events i).authorize K metadata now = .ok cn

def AdminHeaders (i time : Nat) (headers : List (String × String)) : Prop :=
  ∃ certPem seed, events[i]? = some (RpcEvent.adminHeadersFromCert certPem seed time) ∧
    adminHeadersFromCert K certPem seed time = .ok headers

def OrdinaryHeaders (i : Nat) (headers : List (String × String)) : Prop :=
  ∃ signing verifying nodeId time,
    events[i]? = some (RpcEvent.buildHeaders signing verifying nodeId time) ∧
    buildHeaders K signing verifying nodeId time = .ok headers

/-- A certificate that the gate takes for an administrator's when a request arrives at `now`. -/
def TrustedAt (now : Nat) (nodeId : String) (certDer key : Bytes) : Prop :=
  ∃ i metadata, events[i]? = some (RpcEvent.request metadata now) ∧
    (gateAt g events i).verifier.verifyCertDer now certDer = .ok () ∧
    (gateAt g events i).verifier.verifiedSubjectCn now certDer = .ok nodeId ∧
    K.certificateAdminRoleDer certDer = some adminRole ∧
    K.certificateEd25519PublicKeyDer certDer = some key

def TrustedAdmin (nodeId : String) (certDer key : Bytes) : Prop :=
  ∃ now, TrustedAt K g events now nodeId certDer key

/-- Ideal signatures: one that verifies under an administrator's key, in whatever request, was
returned by an earlier call. A base64 text is the encoding of what it decodes to. -/
structure IdealHistory : Prop where
  unforged : ∀ (i : Nat) (metadata : MetadataMap) (now : Nat) (nodeId : String)
    (certDer key message : Bytes) (sigHex : String) (signature : Bytes),
    events[i]? = some (RpcEvent.request metadata now) → TrustedAdmin K g events nodeId certDer key →
    metadata.text "x-glasschain-auth-sig" = some sigHex → hexDecode sigHex = some signature →
    K.ed25519.verify key message signature = true →
      ∃ j < i, ∃ e, events[j]? = some e ∧ Signs K e key message signature
  canonical : ∀ text bytes, K.base64Decode text = some bytes → text = K.base64Encode bytes

/-- What the gate leaves to its clients. An ordinary call with the key and the name of an
administrator's certificate is not made within the window of a request at which the certificate is
trusted, and administrators have one certificate for them; no complete header set is sent again
within twice the window. -/
structure Disciplined : Prop where
  separate : ∀ signing verifying nodeId time,
    RpcEvent.buildHeaders signing verifying nodeId time ∈ events →
      ∀ now certDer, TrustedAt K g events now nodeId certDer (K.publicKey signing) →
        g.skewSecs < max now time - min now time
  own : ∀ certPem seed now, RpcEvent.adminHeadersFromCert certPem seed now ∈ events →
    ∀ nodeId der certDer, K.certificateSubjectCn certPem = some nodeId →
      K.pemToDer certPem = .ok der → TrustedAdmin K g events nodeId certDer (K.publicKey seed) →
        certDer = der
  once : ∀ (i j : Nat) (metadata metadata' : MetadataMap) (now now' : Nat),
    events[i]? = some (RpcEvent.request metadata now) →
    events[j]? = some (RpcEvent.request metadata' now') → i ≠ j →
    ∀ headers, headerSet metadata.text = some headers → headerSet metadata'.text = some headers →
      2 * g.skewSecs < max now now' - min now now'

variable {K g events}

lemma gateAt_skewSecs (i : Nat) : (gateAt g events i).skewSecs = g.skewSecs := by
  unfold gateAt
  induction events.take i generalizing g with
  | nil => rfl
  | cons e rest ih =>
    rw [foldl_cons, ih]
    cases e <;> rfl

lemma gateAt_of_no_update (none : ∀ verifier, RpcEvent.updateVerifier verifier ∉ events)
    (i : Nat) : gateAt g events i = g := by
  have kept : ∀ verifier, RpcEvent.updateVerifier verifier ∉ events.take i :=
    fun verifier reloaded => none verifier (mem_of_mem_take reloaded)
  unfold gateAt
  generalize events.take i = before at kept ⊢
  induction before with
  | nil => rfl
  | cons e rest ih => cases e <;> grind

lemma AdminGate.Admits.headerSet {g : AdminGate} {tsStr sigHex certB64 : String} {ts : Nat}
    {certDer publicKey sigBytes : Bytes}
    (h : g.Admits K metadata now nodeId tsStr sigHex certB64 ts certDer publicKey sigBytes) :
    headerSet metadata.text = some (nodeId, tsStr, sigBytes, certB64) := by
  simp [GlassChain.headerSet, signatureOf, h.node, h.stamp, h.signature, h.certificate, h.bytes]

/-- The headers a client builds are those the gate reads. -/
lemma headerSet_adminHeadersFromCert {certPem : String} {seed : Bytes}
    {headers : List (String × String)}
    (returned : adminHeadersFromCert K certPem seed now = .ok headers)
    (subject : K.certificateSubjectCn certPem = some nodeId) :
    ∃ der, K.pemToDer certPem = .ok der ∧ headerSet (headers.lookup ·) = some (nodeId, toString now,
      K.sign seed (authChallenge nodeId (toString now)), K.base64Encode der) := by
  unfold adminHeadersFromCert at returned
  rw [subject] at returned
  cases pem : K.pemToDer certPem with
  | error e => simp [pem] at returned
  | ok der =>
    simp only [pem, Except.ok.injEq] at returned
    subst returned
    exact ⟨der, rfl, by simp [headerSet, signatureOf, msgHeaders, certHeader, List.lookup]⟩

/-- Under the discipline an admitted request carries what an administrator's client returned, within
the window. -/
theorem produced_of_accepted (ideal : IdealHistory K g events)
    (disciplined : Disciplined K g events) {i : Nat} (accepted : Accepted K g events i metadata now) :
    ∃ j < i, ∃ time headers, AdminHeaders K events j time headers ∧
      headerSet metadata.text = headerSet (headers.lookup ·) ∧
      max now time - min now time ≤ g.skewSecs := by
  obtain ⟨request, cn, ok⟩ := accepted
  obtain ⟨tsStr, sigHex, certB64, ts, certDer, key, signature, admits⟩ :=
    (AdminGate.authorize_eq_ok K).mp ok
  have trusted : TrustedAt K g events now cn certDer key :=
    ⟨i, metadata, request, admits.trusted, admits.named, admits.role, admits.key⟩
  have recent : max now ts - min now ts ≤ g.skewSecs := gateAt_skewSecs (g := g) i ▸ admits.recent
  obtain ⟨j, before, e, called, signs⟩ := ideal.unforged i metadata now cn certDer key _ sigHex
    signature request ⟨now, trusted⟩ admits.signature admits.bytes admits.verified
  have clean := parseU64_eq_some admits.parsed
  have member := mem_of_getElem? called
  generalize message : authChallenge cn tsStr = challenge at signs
  cases signs with
  | @ordinary signing verifying nodeId time headers returned =>
    obtain ⟨rfl, rfl⟩ := authChallenge_injective clean (colon_notMem_toString time) message
    obtain rfl := parseU64_toString admits.parsed
    exact absurd recent (disciplined.separate _ _ _ _ member _ _ trusted).not_ge
  | @admin certPem seed time headers nodeId returned subject =>
    obtain ⟨rfl, rfl⟩ := authChallenge_injective clean (colon_notMem_toString time) message
    obtain ⟨der, pem, produced⟩ := headerSet_adminHeadersFromCert returned subject
    obtain rfl := disciplined.own _ _ _ member _ _ _ subject pem ⟨now, trusted⟩
    obtain rfl := parseU64_toString admits.parsed
    refine ⟨j, before, ts, headers, ⟨certPem, seed, called, returned⟩, ?_, recent⟩
    rw [admits.headerSet, produced, ideal.canonical _ _ admits.decoded]

lemma signatureOf_of_headerSet {text : String → Option String} {ts cert : String}
    {sigBytes : Bytes} (all : headerSet text = some (nodeId, ts, sigBytes, cert)) :
    signatureOf text = some sigBytes := by
  simp only [headerSet, Option.bind_eq_bind, Option.bind_eq_some_iff, pure] at all
  grind

/-- Under the discipline an admitted request carries the headers that the administrator it names had
made, within the window; a header set is admitted at most once; and a signature that only ordinary
calls returned is not admitted. -/
theorem AdminGate.authority_fresh_and_bound (ideal : IdealHistory K g events)
    (disciplined : Disciplined K g events) :
    (∀ i metadata now, Accepted K g events i metadata now →
      ∃ j < i, ∃ time headers, AdminHeaders K events j time headers ∧
        headerSet metadata.text = headerSet (headers.lookup ·) ∧
        max now time - min now time ≤ g.skewSecs) ∧
    (∀ i j metadata metadata' now now', Accepted K g events i metadata now →
      Accepted K g events j metadata' now' →
      headerSet metadata.text = headerSet metadata'.text → i = j) ∧
    (∀ i metadata now k headers, OrdinaryHeaders K events k headers →
      signatureOf metadata.text = signatureOf (headers.lookup ·) →
      (∀ j time headers', AdminHeaders K events j time headers' →
        signatureOf (headers'.lookup ·) ≠ signatureOf (headers.lookup ·)) →
      ¬Accepted K g events i metadata now) := by
  refine ⟨fun i metadata now => produced_of_accepted ideal disciplined, ?_, ?_⟩
  · intro i j metadata metadata' now now' first second same
    by_contra distinct
    obtain ⟨sent, cn, ok⟩ := first
    obtain ⟨sent', cn', ok'⟩ := second
    obtain ⟨_, _, _, ts, _, _, _, admits⟩ := authorize_eq_ok K |>.mp ok
    obtain ⟨_, _, _, ts', _, _, _, admits'⟩ := authorize_eq_ok K |>.mp ok'
    have apart := disciplined.once i j metadata metadata' now now' sent sent' distinct _
      admits.headerSet (same ▸ admits.headerSet)
    -- both carry the one timestamp, and both clocks are within the window of it
    have stamps : ts = ts' := by
      have stamp := admits.parsed
      grind [admits.headerSet, admits'.headerSet, admits'.parsed]
    have recent := admits.recent
    have recent' := admits'.recent
    rw [gateAt_skewSecs] at recent recent'
    omega
  · intro i metadata now k headers ordinary carried only accepted
    obtain ⟨j, -, time, headers', produced, same, -⟩ :=
      produced_of_accepted ideal disciplined accepted
    obtain ⟨_, cn, ok⟩ := accepted
    obtain ⟨_, _, _, _, _, _, _, admits⟩ := authorize_eq_ok K |>.mp ok
    have sent := signatureOf_of_headerSet admits.headerSet
    have returned := signatureOf_of_headerSet (same.symm.trans admits.headerSet)
    exact only j time headers' produced (by rw [returned, ← carried, sent])

end History

def MetadataMap.ofHeaders (headers : List (String × String)) : MetadataMap :=
  fun name => (headers.lookup name).map utf8

/-- One key, one certificate, and signatures that tell one message from all others. -/
def sampleRpc : RpcCrypto where
  ed25519 := {
    validKey := fun _ => true
    verify := fun _ message signature =>
      signature == List.replicate 64 (if message == utf8 "root:100" then 1 else 2) }
  publicKey := id
  sign := fun _ message => List.replicate 64 (if message == utf8 "root:100" then 1 else 2)
  base64Encode := fun _ => "AA=="
  base64Decode := fun text => if text = "AA==" then some [0] else none
  pemToDer := fun _ => .ok [0]
  certificateSubjectCn := fun _ => some "root"
  certificateEd25519PublicKeyDer := fun _ => some [7]
  certificateAdminRoleDer := fun _ => some "admin"

def sampleGate : AdminGate := .new {
  verifyCertDer := fun _ certDer => if certDer = [0] then .ok () else .error "unknown issuer"
  verifiedSubjectCn := fun _ _ => .ok "root" }

def sampleSignature : String := hexEncode (List.replicate 64 1)

def sampleMetadata : MetadataMap := .ofHeaders
  (msgHeaders "root" "100" sampleSignature ++ [(certHeader, "AA==")])

lemma sampleMetadata_signature :
    sampleMetadata.text "x-glasschain-auth-sig" = some sampleSignature := by
  decide +kernel

lemma sampleGate_authorize (recent : max now 100 - min now 100 ≤ 60) :
    sampleGate.authorize sampleRpc sampleMetadata now = .ok "root" :=
  (AdminGate.authorize_eq_ok sampleRpc).mpr
    ⟨"100", sampleSignature, "AA==", 100, [0], [7], replicate 64 1, {
      node := by decide +kernel
      stamp := by decide +kernel
      signature := sampleMetadata_signature
      certificate := by decide +kernel
      parsed := by decide +kernel
      recent := recent
      decoded := rfl
      trusted := rfl
      named := rfl
      key := rfl
      bytes := hexDecode_hexEncode _
      width := rfl
      valid := rfl
      verified := by decide +kernel
      role := rfl }⟩

lemma signs_admin : Signs sampleRpc (.adminHeadersFromCert "pem" [7] 100) [7] (utf8 "root:100")
    (replicate 64 1) := by
  have message : authChallenge "root" (toString 100) = utf8 "root:100" := by decide +kernel
  have signs : Signs sampleRpc (.adminHeadersFromCert "pem" [7] 100) _ _ _ :=
    @Signs.admin sampleRpc "pem" [7] 100 _ "root" rfl rfl
  rwa [message] at signs

lemma signs_ordinary : Signs sampleRpc (.buildHeaders [7] [7] "root" 100) [7] (utf8 "root:100")
    (replicate 64 1) := by
  have message : authChallenge "root" (toString 100) = utf8 "root:100" := by decide +kernel
  have signs : Signs sampleRpc (.buildHeaders [7] [7] "root" 100) _ _ _ := .ordinary rfl
  rwa [message] at signs

def rpcHistory (first : RpcEvent) (times : List Nat) : List RpcEvent :=
  first :: times.map (RpcEvent.request sampleMetadata)

section Sample

variable {first : RpcEvent} (times : List Nat)
  (signs : Signs sampleRpc first [7] (utf8 "root:100") (List.replicate 64 1))

include signs

lemma request_of_rpcHistory {i : Nat}
    (request : (rpcHistory first times)[i]? = some (.request metadata now)) :
    0 < i ∧ metadata = sampleMetadata := by
  cases i with
  | zero =>
    cases request
    exact absurd signs (Signs.not_request sampleRpc)
  | succ i =>
    simp only [rpcHistory, getElem?_cons_succ, getElem?_map, Option.map_eq_some_iff,
      RpcEvent.request.injEq] at request
    grind

lemma gateAt_rpcHistory (i : Nat) :
    gateAt sampleGate (rpcHistory first times) i = sampleGate := by
  apply gateAt_of_no_update
  intro verifier reloaded
  obtain rfl : RpcEvent.updateVerifier verifier = first := by simpa [rpcHistory] using reloaded
  exact Signs.not_updateVerifier sampleRpc signs

lemma rpcHistory_ideal : IdealHistory sampleRpc sampleGate (rpcHistory first times) where
  unforged := by
    intro i metadata now nodeId certDer key message sigHex signature request trusted sent bytes
      verified
    obtain ⟨_, _, _, _, _, _, _, keyed⟩ := trusted
    cases keyed
    obtain ⟨after, rfl⟩ := request_of_rpcHistory times signs request
    obtain rfl : sampleSignature = sigHex := by
      rw [sampleMetadata_signature] at sent
      exact Option.some.inj sent
    obtain rfl : replicate 64 1 = signature := by
      rw [sampleSignature, hexDecode_hexEncode] at bytes
      exact Option.some.inj bytes
    have signed : message = utf8 "root:100" := by
      by_contra other
      simp [sampleRpc, other] at verified
    exact ⟨0, after, first, rfl, by rwa [signed]⟩
  canonical := by
    intro text bytes decoded
    simp only [sampleRpc] at decoded ⊢
    grind

lemma rpcHistory_accepted {i : Nat} (sent : times[i]? = some now)
    (recent : max now 100 - min now 100 ≤ 60) :
    Accepted sampleRpc sampleGate (rpcHistory first times) (i + 1) sampleMetadata now := by
  refine ⟨by simp [rpcHistory, sent], "root", ?_⟩
  rw [gateAt_rpcHistory times signs]
  exact sampleGate_authorize recent

end Sample

/-- One request with an administrator's headers. -/
theorem authority_fresh_and_bound_once :
    Disciplined sampleRpc sampleGate (rpcHistory (.adminHeadersFromCert "pem" [7] 100) [130]) ∧
    Accepted sampleRpc sampleGate (rpcHistory (.adminHeadersFromCert "pem" [7] 100) [130]) 1
      sampleMetadata 130 ∧
    ∃ j < 1, ∃ time headers,
      AdminHeaders sampleRpc (rpcHistory (.adminHeadersFromCert "pem" [7] 100) [130]) j time
        headers ∧ headerSet sampleMetadata.text = headerSet (headers.lookup ·) ∧
      max 130 time - min 130 time ≤ 60 := by
  have disciplined : Disciplined sampleRpc sampleGate
      (rpcHistory (.adminHeadersFromCert "pem" [7] 100) [130]) := {
    separate := by simp [rpcHistory]
    own := by
      rintro certPem seed now call nodeId der certDer subject pem ⟨now, i, metadata, -, trusted, -⟩
      cases pem
      rw [gateAt_rpcHistory _ signs_admin] at trusted
      simp only [sampleGate, AdminGate.new] at trusted
      grind
    once := by
      intro i j metadata metadata' now now' first second distinct
      simp only [rpcHistory] at first second
      grind }
  have accepted := rpcHistory_accepted [130] signs_admin (i := 0) rfl (by decide)
  exact ⟨disciplined, accepted, (AdminGate.authority_fresh_and_bound
    (rpcHistory_ideal [130] signs_admin) disciplined).1 1 _ _ accepted⟩

/-- An ordinary call's signature is admitted with the certificate of its key, where no administrator
has called; and what an administrator's call returned is admitted twice. -/
theorem authority_replayed :
    (IdealHistory sampleRpc sampleGate (rpcHistory (.buildHeaders [7] [7] "root" 100) [130]) ∧
      Accepted sampleRpc sampleGate (rpcHistory (.buildHeaders [7] [7] "root" 100) [130]) 1
        sampleMetadata 130 ∧
      (∃ headers, OrdinaryHeaders sampleRpc
          (rpcHistory (.buildHeaders [7] [7] "root" 100) [130]) 0 headers ∧
        signatureOf sampleMetadata.text = signatureOf (headers.lookup ·)) ∧
      ∀ j time headers, ¬AdminHeaders sampleRpc
        (rpcHistory (.buildHeaders [7] [7] "root" 100) [130]) j time headers) ∧
    IdealHistory sampleRpc sampleGate
      (rpcHistory (.adminHeadersFromCert "pem" [7] 100) [130, 131]) ∧
    Accepted sampleRpc sampleGate
      (rpcHistory (.adminHeadersFromCert "pem" [7] 100) [130, 131]) 1 sampleMetadata 130 ∧
    Accepted sampleRpc sampleGate
      (rpcHistory (.adminHeadersFromCert "pem" [7] 100) [130, 131]) 2 sampleMetadata 131 := by
  refine ⟨⟨rpcHistory_ideal _ signs_ordinary,
    rpcHistory_accepted _ signs_ordinary (i := 0) rfl (by decide), ?_, ?_⟩,
    rpcHistory_ideal _ signs_admin,
    rpcHistory_accepted _ signs_admin (i := 0) rfl (by decide),
    rpcHistory_accepted _ signs_admin (i := 1) rfl (by decide)⟩
  · refine ⟨msgHeaders "root" "100" sampleSignature, ⟨[7], [7], "root", 100, rfl, ?_⟩, ?_⟩ <;>
      decide +kernel
  · rintro j time headers ⟨certPem, seed, called, -⟩
    simp only [rpcHistory] at called
    grind

end GlassChain
