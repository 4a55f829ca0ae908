import GlassChain.Network.PeerPins

/-!
# The handshake

What a `Hello` does on a connection: the checks on the transport fingerprint, the verification of
the claimed organization by a possession proof bound to the session, the pin of the listen address,
and the registration of the connection under that address. A refused `Hello` ends the connection and
leaves every table as it was.
-/

namespace GlassChain

open Library

def protocolVersion : String := "glasschain/7"

/-- The fields of a `Hello`; proofs and the staple are base64 texts. -/
structure HelloMessage where
  nodeId : String
  tlsCertFingerprint : String
  chainLength : Nat
  version : String
  capabilities : List CapabilityAdvertisement
  org : String
  certificatePem : Option String
  certificateProof : Option String
  fingerprintProof : Option String
  ocspResponseDer : Option String
  listenAddr : String
  deriving DecidableEq, Repr

inductive OcspStatus where
  | good
  | revoked
  deriving DecidableEq, Repr

/-- The verifier of an organization's Root CA, at a Unix second. -/
structure CertVerifier where
  verifiedSubjectCnPem : Nat → String → Except String String
  verifyOcspStaple : Nat → String → Bytes → Except String OcspStatus

structure NodeConfig where
  verifier : Option CertVerifier
  localFingerprint : String
  /-- The node identifier of the attached identity. -/
  identity : Option String
  nodeId : String

/-- Signatures, and the key inside a PEM certificate. -/
structure Pki where
  ed25519 : Ed25519
  certificateEd25519PublicKey : String → Option Bytes

def orgPossessionMessage (org nodeId : String) (binding : Bytes) : Bytes :=
  utf8 "glasschain-org-possession:" ++ lengthPrefixed (utf8 org) ++ lengthPrefixed (utf8 nodeId) ++
    lengthPrefixed binding

def verifyOrgPossession (P : Pki) (certPem org nodeId : String) (binding proof : Bytes) : Bool :=
  match P.certificateEd25519PublicKey certPem with
  | none => false
  | some key => verifyEd25519 P.ed25519 key (orgPossessionMessage org nodeId binding) proof

/-- A connection as the accept loop leaves it: the fingerprint of the certificate bytes the peer
sent before the TLS handshake, and the exporter output of the session. -/
structure Session where
  observedCertFingerprint : String
  sessionBinding : Option Bytes
  deriving DecidableEq, Repr

namespace HelloMessage

variable (X : Externals) (P : Pki) (verifier : Option CertVerifier) (now : Nat) (s : Session)
  (h : HelloMessage)

def certified : Bool :=
  verifier.any fun v => h.certificatePem.any fun pem =>
    match v.verifiedSubjectCnPem now pem with
    | .ok cn => cn == h.org
    | .error _ => false

def possessionOk : Bool :=
  h.certified verifier now && s.sessionBinding.any fun binding =>
    h.certificateProof.any fun text => h.certificatePem.any fun pem =>
      (X.base64Decode text).any fun proof =>
        verifyOrgPossession P pem h.org h.nodeId binding proof

def stapleRevoked : Bool :=
  verifier.isSome && h.possessionOk X P verifier now s && h.ocspResponseDer.any fun text =>
    h.certificatePem.any fun pem => verifier.any fun v =>
      (X.base64Decode text).any fun staple =>
        match v.verifyOcspStaple now pem staple with
        | .ok .revoked => true
        | _ => false

def orgVerified : Bool :=
  h.possessionOk X P verifier now s && !h.stapleRevoked X P verifier now s

def pinCall : PinCall where
  listenAddr := h.listenAddr
  nodeId := h.nodeId
  certFingerprint := s.observedCertFingerprint
  org := h.org
  orgVerified := h.orgVerified X P verifier now s
  publicKey := h.certificatePem.bind P.certificateEd25519PublicKey
  fingerprintProof := h.fingerprintProof.bind X.base64Decode

end HelloMessage

/-- The tables a `Hello` writes: pins, known addresses, and the connection that messages to an
address are written to. -/
structure PeerTable where
  registry : PinRegistry
  knownPeers : List String
  peerSenders : AList fun _ : String => Nat

structure MessageEffect where
  stableAddr : Option String
  disconnect : Bool
  deriving DecidableEq, Repr

namespace MessageEffect

def default : MessageEffect := ⟨none, false⟩

def terminate : MessageEffect := ⟨none, true⟩

end MessageEffect

namespace PeerTable

/-- `Message::Hello` on a connection. -/
def hello (X : Externals) (P : Pki) (K : PinCodec) (C : NodeConfig) (T : PeerTable)
    (storage : WorldState) (now connection : Nat) (s : Session) (h : HelloMessage) :
    PeerTable × WorldState × MessageEffect :=
  if h.version ≠ protocolVersion then (T, storage, .terminate)
  else if h.tlsCertFingerprint = C.localFingerprint then (T, storage, .terminate)
  else if h.tlsCertFingerprint ≠ s.observedCertFingerprint then (T, storage, .terminate)
  else match PinNode.hello P.ed25519 K ⟨T.registry, storage⟩ (h.pinCall X P C.verifier now s) with
    | (N, .error _) => ({ T with registry := N.registry }, N.storage, .terminate)
    | (N, .ok _) =>
      ({ registry := N.registry.setAdvertised h.listenAddr h.capabilities
         knownPeers := T.knownPeers.insert h.listenAddr
         peerSenders := T.peerSenders.insert h.listenAddr connection },
        N.storage, ⟨some h.listenAddr, false⟩)

/-- `handle_peer` at the end of a connection that had a stable address. -/
def disconnect (T : PeerTable) (stableAddr : Option String) : PeerTable :=
  match stableAddr with
  | none => T
  | some address =>
    { T with knownPeers := T.knownPeers.erase address
             peerSenders := T.peerSenders.erase address }

/-- A `Hello` is refused and nothing changes, or it is accepted: the connection is registered under
the listen address, whose pin has the claimed organization and this session's evidence. -/
theorem hello_cases (X : Externals) (P : Pki) (K : PinCodec) (C : NodeConfig) (T : PeerTable)
    (storage : WorldState) (now connection : Nat) (s : Session) (h : HelloMessage) :
    T.hello X P K C storage now connection s h = (T, storage, .terminate) ∨
      ∃ peer, peer.org = h.org ∧ peer.orgVerified = h.orgVerified X P C.verifier now s ∧
        T.hello X P K C storage now connection s h =
          (⟨{ T.registry with peers := T.registry.peers.insert h.listenAddr peer },
            T.knownPeers.insert h.listenAddr, T.peerSenders.insert h.listenAddr connection⟩,
            persistTofuPin K storage h.listenAddr peer, ⟨some h.listenAddr, false⟩) := by
  unfold hello
  split
  · exact .inl rfl
  split
  · exact .inl rfl
  split
  · exact .inl rfl
  rcases PinNode.hello_cases P.ed25519 K ⟨T.registry, storage⟩ (h.pinCall X P C.verifier now s) with
    ⟨e, refused⟩ | ⟨peer, outcome, -, accepted, same⟩
  · left
    rw [refused]
  · right
    have verified : peer.orgVerified = h.orgVerified X P C.verifier now s := by
      cases accepted <;> rfl
    have advertised : PinRegistry.setAdvertised
        { T.registry with peers := T.registry.peers.insert h.listenAddr peer } h.listenAddr
          h.capabilities = { T.registry with
            peers := T.registry.peers.insert h.listenAddr
              { peer with advertised := h.capabilities } } := by
      rw [PinRegistry.setAdvertised, PinRegistry.modify_of_lookup (AList.lookup_insert _),
        AList.insert_insert]
    refine ⟨{ peer with advertised := h.capabilities }, accepted.org, verified, ?_⟩
    rw [same, ← advertised]
    rfl

end PeerTable

end GlassChain
