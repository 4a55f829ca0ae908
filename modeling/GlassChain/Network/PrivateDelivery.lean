import GlassChain.Network.Handshake
import GlassChain.Network.PrivatePayload

/-!
# Delivery of private payloads

Which connections a node writes private payloads to. The recipients of a submission or of a mined
write are the connections registered under the listen addresses of verified members; the answer to a
request goes back on the connection the request came on. Trust is recorded by listen address, and
several connections may have greeted with one address: the last of them is registered, the others
keep the address. A run in which every request comes on the connection registered under its address
writes payloads only to connections that proved to hold a member's certificate.
-/

namespace GlassChain

open Library PrivateGate List HelloMessage

def defaultRetentionSecs : Nat := 72 * 60 * 60

namespace PrivateGate

def payloadTargets (G : PrivateGate) (peerSenders : AList fun _ : String => Nat)
    (collection : Channel) : List Nat :=
  (peerSenders.entries.filter fun e =>
    (G.peerOrg e.1).any collection.isMember && G.privatePeerTrusted e.1 collection.config.name).map
      Sigma.snd

/-- `Message::PrivatePayload`: the payload is kept, or rejected with a reason in the log. -/
def receivePrivatePayload (X : Externals) (J : EnvelopeCodec) (G : PrivateGate) (T : TransientStore)
    (now : Nat) (pdcActive : Bool) (stableAddr : Option String) (message : PrivatePayload) :
    TransientStore :=
  if !pdcActive then T
  else match stableAddr with
    | none => T
    | some address =>
      let senderOk := G.verifierConfigured &&
        (G.peerOrg address).any (G.isCollectionMember message.collection) &&
        (G.peerOrg address).bind (G.registry.orgVerified address) == some true
      if G.isCollectionMember message.collection G.localOrg && senderOk &&
          X.sha256 message.payload == message.commitment then
        T.put J now message.collection message.commitment message.payload
          (((G.collection message.collection).map (·.config.retentionSecs)).getD
            defaultRetentionSecs)
      else T

def share (X : Externals) (J : EnvelopeCodec) (G : PrivateGate)
    (peerSenders : AList fun _ : String => Nat) (T : TransientStore) (now : Nat) (name : String)
    (configured : Channel) (payload : Bytes) : TransientStore × List (Nat × PrivatePayload) :=
  let commitment := X.sha256 payload
  (T.put J now name commitment payload configured.config.retentionSecs,
    (G.payloadTargets peerSenders configured).map fun k => (k, ⟨name, commitment, payload⟩))

def submitPrivatePayload (X : Externals) (J : EnvelopeCodec) (G : PrivateGate)
    (peerSenders : AList fun _ : String => Nat) (T : TransientStore) (now : Nat) (pdcActive : Bool)
    (collection : String) (payload : Bytes) :
    Except CoreError (TransientStore × List (Nat × PrivatePayload)) := do
  require G.verifierConfigured (.invalidTransaction
    ("private payloads require a configured certificate verifier; org trust " ++
      "fails closed without one (zero-trust #86)"))
  require (G.isCollectionMember collection G.localOrg) (.invalidTransaction
    s!"org '{G.localOrg}' is not a member of collection '{collection}'")
  require pdcActive (.invalidTransaction
    "private payloads require the 'pdc' capability to be active")
  match G.collection collection with
  | none => throw (.invalidTransaction s!"collection '{collection}' is not configured")
  | some configured => return G.share X J peerSenders T now collection configured payload

def disseminateWrite (X : Externals) (J : EnvelopeCodec) (G : PrivateGate)
    (peerSenders : AList fun _ : String => Nat) (T : TransientStore) (now : Nat)
    (write : PersistentWrite) : TransientStore × List (Nat × PrivatePayload) :=
  match write.op, write.visibility with
  | .set value, .pdc collection =>
    if !G.isCollectionMember collection G.localOrg then (T, [])
    else match G.collection collection with
      | none => (T, [])
      | some configured => G.share X J peerSenders T now collection configured value
  | _, _ => (T, [])

def disseminatePrivateWrites (X : Externals) (J : EnvelopeCodec) (G : PrivateGate)
    (peerSenders : AList fun _ : String => Nat) (now : Nat) :
    TransientStore → List PersistentWrite → TransientStore × List (Nat × PrivatePayload)
  | T, [] => (T, [])
  | T, write :: rest =>
    let (T, messages) := G.disseminateWrite X J peerSenders T now write
    let (T, later) := G.disseminatePrivateWrites X J peerSenders now T rest
    (T, messages ++ later)

end PrivateGate

/-- An open connection, and the stable address of its last accepted `Hello`. -/
structure OpenConnection where
  session : Session
  stableAddr : Option String

/-- An accepted `Hello`. -/
structure Greeting where
  connection : Nat
  session : Session
  now : Nat
  hello : HelloMessage

/-- A node with its connections; the greetings are a ghost. Connections are numbered as they are
opened. -/
structure PrivateNode where
  peers : PeerTable
  transient : TransientStore
  collections : List Channel
  connections : AList fun _ : Nat => OpenConnection
  opened : Nat
  greetings : List Greeting

inductive PrivateInput where
  | connect (session : Session)
  | hello (connection now : Nat) (hello : HelloMessage)
  | request (connection now : Nat) (collection commitment : String)
  | receive (connection now : Nat) (pdcActive : Bool) (message : PrivatePayload)
  | submit (now : Nat) (pdcActive : Bool) (collection : String) (payload : Bytes)
  | disseminate (now : Nat) (writes : List PersistentWrite)
  | purge (now : Nat)
  | configure (collections : List Channel)
  | disconnect (connection : Nat)
  | restart

namespace PrivateNode

def gate (C : NodeConfig) (n : PrivateNode) : PrivateGate :=
  ⟨C.verifier.isSome, n.peers.registry, n.collections, C.identity, C.nodeId⟩

def boot (K : PinCodec) (storage : WorldState) (collections : List Channel) : PrivateNode where
  peers := ⟨loadTofuPins K storage, [], ∅⟩
  transient := .new storage
  collections := collections
  connections := ∅
  opened := 0
  greetings := []

variable (X : Externals) (P : Pki) (K : PinCodec) (J : EnvelopeCodec) (C : NodeConfig)

/-- A `Hello` on an open connection. A refused one ends the connection, which had a stable address
if an earlier one was accepted. -/
def greet (n : PrivateNode) (connection now : Nat) (h : HelloMessage) : PrivateNode :=
  match n.connections.lookup connection with
  | none => n
  | some c =>
    let (peers, storage, effect) := n.peers.hello X P K C n.transient.storage now connection c.session h
    match effect.stableAddr with
    | some address =>
      { n with
        peers := peers
        transient := { n.transient with storage := storage }
        connections := n.connections.insert connection { c with stableAddr := some address }
        greetings := n.greetings ++ [⟨connection, c.session, now, h⟩] }
    | none =>
      { n with
        peers := peers.disconnect c.stableAddr
        transient := { n.transient with storage := storage }
        connections := n.connections.erase connection }

def stableAddr (n : PrivateNode) (connection : Nat) : Option String :=
  (n.connections.lookup connection).bind OpenConnection.stableAddr

end PrivateNode

namespace PrivateInput

variable (X : Externals) (P : Pki) (K : PinCodec) (J : EnvelopeCodec) (C : NodeConfig)

/-- The node after an input, and the private payloads it writes, by connection. -/
def next (n : PrivateNode) : PrivateInput → PrivateNode × List (Nat × PrivatePayload)
  | connect session => ({ n with
      connections := n.connections.insert n.opened ⟨session, none⟩
      opened := n.opened + 1 }, [])
  | hello connection now h => (n.greet X P K C connection now h, [])
  | request connection now collection commitment =>
    let (transient, answer) := (n.gate C).requestPrivatePayload J n.transient now
      (n.stableAddr connection) collection commitment
    ({ n with transient := transient }, answer.toList.map fun message => (connection, message))
  | receive connection now pdcActive message =>
    let transient := (n.gate C).receivePrivatePayload X J n.transient now pdcActive
      (n.stableAddr connection) message
    ({ n with transient := transient }, [])
  | submit now pdcActive collection payload =>
    match (n.gate C).submitPrivatePayload X J n.peers.peerSenders n.transient now pdcActive
        collection payload with
    | .error _ => (n, [])
    | .ok (transient, messages) => ({ n with transient := transient }, messages)
  | disseminate now writes =>
    let (transient, messages) := (n.gate C).disseminatePrivateWrites X J n.peers.peerSenders now
      n.transient writes
    ({ n with transient := transient }, messages)
  | purge now => ({ n with transient := (n.transient.purgeExpired J now).1 }, [])
  | configure collections => ({ n with collections := collections }, [])
  | disconnect connection => ({ n with
      peers := n.peers.disconnect (n.stableAddr connection)
      connections := n.connections.erase connection }, [])
  | restart => ({ PrivateNode.boot K n.transient.storage n.collections with
      opened := n.opened
      greetings := n.greetings }, [])

def Step (n : PrivateNode) (input : PrivateInput) (n' : PrivateNode) : Prop :=
  n' = (input.next X P K J C n).1

end PrivateInput

/-- A request comes on the connection that is registered under its stable address. -/
def PrivateNode.Direct (n : PrivateNode) : PrivateInput → Prop
  | .request connection _ _ _ => ∀ address, n.stableAddr connection = some address →
      n.peers.peerSenders.lookup address = some connection
  | _ => True

/-- The greeting proved, in its own session, possession of a certificate that verifies, with the
claimed organization as its subject. -/
def Greeting.Proves (X : Externals) (P : Pki) (C : NodeConfig) (g : Greeting) : Prop :=
  ∃ V pem binding text proof, C.verifier = some V ∧ g.hello.certificatePem = some pem ∧
    V.verifiedSubjectCnPem g.now pem = .ok g.hello.org ∧
    g.session.sessionBinding = some binding ∧ g.hello.certificateProof = some text ∧
    X.base64Decode text = some proof ∧
    verifyOrgPossession P pem g.hello.org g.hello.nodeId binding proof = true

def PrivateNode.ProvenMember (X : Externals) (P : Pki) (C : NodeConfig) (n : PrivateNode)
    (connection : Nat) (collection : String) : Prop :=
  ∃ g ∈ n.greetings, g.connection = connection ∧ g.Proves X P C ∧
    (n.gate C).isCollectionMember collection g.hello.org = true

section

variable {X : Externals} {P : Pki} {K : PinCodec} {J : EnvelopeCodec} {C : NodeConfig}
  {n n' : PrivateNode}

lemma Greeting.proves_of_orgVerified {g : Greeting}
    (verified : g.hello.orgVerified X P C.verifier g.now g.session = true) :
    g.Proves X P C := by
  simp only [orgVerified, possessionOk, certified, Bool.and_eq_true, Option.any_eq_true] at verified
  obtain ⟨⟨⟨V, attached, pem, presented, subject⟩, binding, bound, text, proved, pem', presented',
    proof, decoded, signed⟩, -⟩ := verified
  obtain rfl : pem = pem' := Option.some.inj (presented.symm.trans presented')
  refine ⟨V, pem, binding, text, proof, attached, presented, ?_, bound, proved, decoded, signed⟩
  cases result : V.verifiedSubjectCnPem g.now pem with
  | error e => simp [result] at subject
  | ok cn => simpa [result] using subject

namespace PrivateNode

/-- The evidence recorded for an address comes from the connection registered under it. -/
def Attested (X : Externals) (P : Pki) (C : NodeConfig) (n : PrivateNode) : Prop :=
  ∀ address connection peer, n.peers.peerSenders.lookup address = some connection →
    n.peers.registry.peers.lookup address = some peer → peer.orgVerified = true →
    ∃ g ∈ n.greetings, g.connection = connection ∧ g.Proves X P C ∧
      g.hello.org = peer.org

lemma boot_attested (storage : WorldState) (collections : List Channel) :
    (boot K storage collections).Attested X P C := by
  intro address connection peer registered
  cases registered

/-- The registry and the senders decide; greetings are only added. -/
theorem Attested.of_peers (attested : n.Attested X P C)
    (registry : n'.peers.registry = n.peers.registry)
    (senders : ∀ address connection, n'.peers.peerSenders.lookup address = some connection →
      n.peers.peerSenders.lookup address = some connection)
    (greetings : n'.greetings = n.greetings) : n'.Attested X P C := by
  intro address connection peer registered found verified
  rw [registry] at found
  rw [greetings]
  exact attested address connection peer (senders _ _ registered) found verified

lemma lookup_disconnect {T : PeerTable} {stable : Option String} {address : String}
    {connection : Nat}
    (registered : (T.disconnect stable).peerSenders.lookup address = some connection) :
    T.peerSenders.lookup address = some connection := by
  cases stable with
  | none => exact registered
  | some gone =>
    by_cases same : address = gone
    · subst same
      simp [PeerTable.disconnect] at registered
    · rwa [PeerTable.disconnect, AList.lookup_erase_ne same] at registered

lemma disconnect_registry (T : PeerTable) (stable : Option String) :
    (T.disconnect stable).registry = T.registry := by
  cases stable <;> rfl

/-- An accepted `Hello` replaces both the evidence of its address and the registered connection. -/
theorem Attested.greet (attested : n.Attested X P C) (connection now : Nat) (h : HelloMessage) :
    (n.greet X P K C connection now h).Attested X P C := by
  unfold PrivateNode.greet
  cases n.connections.lookup connection with
  | none => exact attested
  | some c =>
    rcases PeerTable.hello_cases X P K C n.peers n.transient.storage now connection c.session h with
      refused | ⟨peer, org, verified, accepted⟩
    · simp only [refused, MessageEffect.terminate]
      refine attested.of_peers (disconnect_registry _ _) ?_ rfl
      intro address connection registered
      exact lookup_disconnect registered
    · simp only [accepted]
      intro address connection' peer' registered found ok
      by_cases same : address = h.listenAddr
      · subst same
        simp only [AList.lookup_insert, Option.some.injEq] at registered found
        subst registered found
        rw [verified] at ok
        exact ⟨⟨connection, c.session, now, h⟩, by simp, rfl,
          Greeting.proves_of_orgVerified ok, org.symm⟩
      · simp only [AList.lookup_insert_ne same] at registered found
        obtain ⟨g, listed, rest⟩ := attested address connection' peer' registered found ok
        exact ⟨g, by simp [listed], rest⟩

lemma Attested.next (attested : n.Attested X P C) (input : PrivateInput) :
    (input.next X P K J C n).1.Attested X P C := by
  cases input with
  | hello connection now h => exact attested.greet connection now h
  | disconnect connection =>
    exact attested.of_peers (disconnect_registry _ _) (fun _ _ => lookup_disconnect) rfl
  | restart =>
    intro address connection peer registered
    cases registered
  | submit now pdcActive collection payload =>
    simp only [PrivateInput.next]
    split <;> exact attested.of_peers rfl (fun _ _ => id) rfl
  | connect | request | receive | disseminate | purge | configure =>
    exact attested.of_peers rfl (fun _ _ => id) rfl

/-- A trusted address leads to a connection that proved its membership. -/
theorem Attested.provenMember (attested : n.Attested X P C) {address collection : String}
    {connection : Nat} (registered : n.peers.peerSenders.lookup address = some connection)
    (trusted : (n.gate C).privatePeerTrusted address collection = true) :
    n.ProvenMember X P C connection collection := by
  obtain ⟨-, peer, found, verified, member⟩ := privatePeerTrusted_iff.mp trusted
  obtain ⟨g, listed, own, proves, org⟩ := attested address connection peer registered found verified
  exact ⟨g, listed, own, proves, org ▸ member⟩

end PrivateNode

namespace PrivateGate

variable {G : PrivateGate} {peerSenders : AList fun _ : String => Nat} {T : TransientStore}
  {now : Nat}

/-- A message goes to a connection registered under the address of a trusted peer. -/
def Addressed (G : PrivateGate) (peerSenders : AList fun _ : String => Nat)
    (delivery : Nat × PrivatePayload) : Prop :=
  ∃ address, peerSenders.lookup address = some delivery.1 ∧
    G.privatePeerTrusted address delivery.2.collection = true

lemma share_addressed {name : String} {configured : Channel} {payload : Bytes}
    (found : G.collection name = some configured) :
    ∀ delivery ∈ (G.share X J peerSenders T now name configured payload).2,
      G.Addressed peerSenders delivery := by
  intro delivery written
  obtain ⟨k, target, rfl⟩ := mem_map.mp written
  obtain ⟨⟨address, connection⟩, listed, rfl⟩ := mem_map.mp target
  obtain ⟨registered, passes⟩ := mem_filter.mp listed
  have named : configured.config.name = name := by simpa using find?_some found
  rw [Bool.and_eq_true, named] at passes
  exact ⟨address, AList.mem_lookup_iff.mpr registered, passes.2⟩

lemma disseminateWrite_addressed (write : PersistentWrite) :
    ∀ delivery ∈ (G.disseminateWrite X J peerSenders T now write).2,
      G.Addressed peerSenders delivery := by
  unfold disseminateWrite
  split
  · split
    · simp
    · split
      · simp
      · rename_i found
        exact share_addressed found
  · simp

lemma disseminatePrivateWrites_addressed (writes : List PersistentWrite) :
    ∀ delivery ∈ (G.disseminatePrivateWrites X J peerSenders now T writes).2,
      G.Addressed peerSenders delivery := by
  induction writes generalizing T with
  | nil => simp [disseminatePrivateWrites]
  | cons write rest ih =>
    intro delivery written
    rcases mem_append.mp written with here | later
    · exact disseminateWrite_addressed write delivery here
    · exact ih delivery later

lemma submitPrivatePayload_addressed {pdcActive : Bool} {collection : String} {payload : Bytes}
    {T' : TransientStore} {messages : List (Nat × PrivatePayload)}
    (done : G.submitPrivatePayload X J peerSenders T now pdcActive collection payload =
      .ok (T', messages)) : ∀ delivery ∈ messages, G.Addressed peerSenders delivery := by
  simp only [submitPrivatePayload, seq_eq_ok, require_eq_ok] at done
  obtain ⟨-, -, -, rest⟩ := done
  cases found : G.collection collection with
  | none => simp [found, throw, throwThe, MonadExceptOf.throw] at rest
  | some configured =>
    simp only [found, pure, Except.pure, Except.ok.injEq] at rest
    have shared : ∀ delivery ∈ (G.share X J peerSenders T now collection configured payload).2,
        G.Addressed peerSenders delivery := share_addressed found
    rwa [rest] at shared

end PrivateGate

/-- In every run in which each request comes on the connection registered under its stable address,
a private payload goes only to a connection whose own accepted `Hello` proved, bound to its session,
possession of a member's certificate. -/
theorem payloads_reach_proven_members (X : Externals) (P : Pki) (K : PinCodec) (J : EnvelopeCodec)
    (C : NodeConfig) (storage : WorldState) (collections : List Channel) (n : PrivateNode)
    (run : Reaches (PrivateInput.Step X P K J C) PrivateNode.Direct
      (PrivateNode.boot K storage collections) n)
    (input : PrivateInput) (direct : n.Direct input) :
    ∀ delivery ∈ (input.next X P K J C n).2,
      n.ProvenMember X P C delivery.1 delivery.2.collection := by
  have attested : n.Attested X P C := by
    refine run.invariant (I := fun m : PrivateNode => m.Attested X P C) ?_
      (PrivateNode.boot_attested storage collections)
    rintro m step m' attested - rfl
    exact attested.next step
  have proven {delivery : Nat × PrivatePayload}
      (addressed : (n.gate C).Addressed n.peers.peerSenders delivery) :
      n.ProvenMember X P C delivery.1 delivery.2.collection := by
    obtain ⟨address, registered, trusted⟩ := addressed
    exact attested.provenMember registered trusted
  intro delivery written
  cases input with
  | request connection now collection commitment =>
    simp only [PrivateInput.next] at written
    cases answered : (n.gate C).requestPrivatePayload J n.transient now (n.stableAddr connection)
      collection commitment with
    | mk transient answer =>
      rw [answered] at written
      cases answer with
      | none => cases written
      | some message =>
        obtain rfl := mem_singleton.mp written
        obtain ⟨address, stable, serves, -, rfl, -⟩ := requestPrivatePayload_eq_some.mp answered
        exact proven ⟨address, direct address stable, serves.1⟩
  | submit now pdcActive collection payload =>
    simp only [PrivateInput.next] at written
    cases done : (n.gate C).submitPrivatePayload X J n.peers.peerSenders n.transient now pdcActive
      collection payload with
    | error e =>
      rw [done] at written
      cases written
    | ok result =>
      rw [done] at written
      exact proven (submitPrivatePayload_addressed done delivery written)
  | disseminate now writes =>
    exact proven (disseminatePrivateWrites_addressed writes delivery written)
  | connect | hello | receive | purge | configure | disconnect | restart => cases written

end

/-! ## An impostor

The node `holder` knows the organization `Farm` by its certificate. An impostor has everything that
is public: the certificate, the transport certificate, the node id and the listen address.
-/

/-- Ideal signatures: the farm signed one message, its possession proof for one session. -/
def farmPki : Pki where
  ed25519 := ⟨fun _ => true, fun key message signature =>
    key == List.replicate 32 1 && message == orgPossessionMessage "Farm" "farm-1" [9] &&
      signature == List.replicate 64 2⟩
  certificateEd25519PublicKey pem :=
    if pem = "farm-cert" then some (List.replicate 32 1) else none

def farmConfig : NodeConfig where
  verifier := some
    { verifiedSubjectCnPem := fun _ pem => if pem = "farm-cert" then .ok "Farm" else .error "unknown"
      verifyOcspStaple := fun _ _ _ => .error "no staple" }
  localFingerprint := "own"
  identity := none
  nodeId := "holder"

noncomputable def farmExternals : Externals :=
  { Externals.plain 0 with base64Decode := fun _ => some (List.replicate 64 2) }

def farmCollections : List Channel :=
  [⟨⟨"prices", ["Farm", "holder"], 60⟩, ["Farm", "anvisa", "holder", "mapa"]⟩]

def farmHello : HelloMessage where
  nodeId := "farm-1"
  tlsCertFingerprint := "aa"
  chainLength := 1
  version := protocolVersion
  capabilities := []
  org := "Farm"
  certificatePem := some "farm-cert"
  certificateProof := some "proof"
  fingerprintProof := none
  ocspResponseDer := none
  listenAddr := "10.0.0.1:8000"

/-- The same claim without the proof, which the impostor cannot make. -/
def impostorHello : HelloMessage := { farmHello with certificateProof := none }

noncomputable def farmNode (inputs : List PrivateInput) : PrivateNode :=
  inputs.foldl (fun n input =>
    (input.next farmExternals farmPki plainPinCodec plainEnvelopeCodec farmConfig n).1)
    (.boot plainPinCodec ∅ farmCollections)

/-- The impostor greets first, the farm after it. -/
def impostorInputs : List PrivateInput :=
  [.connect ⟨"aa", some [8]⟩, .connect ⟨"aa", some [9]⟩, .hello 0 0 impostorHello,
    .hello 1 0 farmHello, .submit 0 true "prices" [7]]

lemma farmNode_eq (inputs : List PrivateInput) : farmNode inputs =
    inputs.foldl (fun n input =>
      (input.next farmExternals farmPki plainPinCodec plainEnvelopeCodec farmConfig n).1)
      ⟨⟨.new, [], ∅⟩, .new ∅, farmCollections, ∅, 0, []⟩ := by
  rw [farmNode, PrivateNode.boot, loadTofuPins_empty]

/-- The request of the impostor is answered on its connection, whose greeting proved nothing. -/
theorem impostor_request_answered :
    let n := farmNode impostorInputs
    let digest := farmExternals.sha256 [7]
    ((PrivateInput.request 0 0 "prices" digest).next farmExternals farmPki plainPinCodec
        plainEnvelopeCodec farmConfig n).2 = [(0, ⟨"prices", digest, [7]⟩)] ∧
      (∀ g ∈ n.greetings, g.connection = 0 → g.hello = impostorHello) ∧
      ¬ n.ProvenMember farmExternals farmPki farmConfig 0 "prices" := by
  intro n digest
  have greetings : n.greetings =
      [⟨0, ⟨"aa", some [8]⟩, 0, impostorHello⟩, ⟨1, ⟨"aa", some [9]⟩, 0, farmHello⟩] := by
    simp only [n, farmNode_eq]
    rfl
  have own : ∀ g ∈ n.greetings, g.connection = 0 → g.hello = impostorHello := by
    simp [greetings]
  refine ⟨?_, own, ?_⟩
  · simp only [n, farmNode_eq]
    rfl
  · rintro ⟨g, listed, first, ⟨-, -, -, text, -, -, -, -, -, proved, -⟩, -⟩
    rw [own g listed first] at proved
    cases proved

/-- A submission after the farm's greeting alone. -/
theorem farm_receives_payload :
    let n := farmNode [.connect ⟨"aa", some [9]⟩, .hello 0 0 farmHello]
    let digest := farmExternals.sha256 [7]
    ((PrivateInput.submit 0 true "prices" [7]).next farmExternals farmPki plainPinCodec
        plainEnvelopeCodec farmConfig n).2 = [(0, ⟨"prices", digest, [7]⟩)] ∧
      n.ProvenMember farmExternals farmPki farmConfig 0 "prices" := by
  intro n digest
  have written : ((PrivateInput.submit 0 true "prices" [7]).next farmExternals farmPki plainPinCodec
      plainEnvelopeCodec farmConfig n).2 = [(0, ⟨"prices", digest, [7]⟩)] := by
    simp only [n, farmNode_eq]
    rfl
  have run : Reaches (PrivateInput.Step farmExternals farmPki plainPinCodec plainEnvelopeCodec
      farmConfig) PrivateNode.Direct (.boot plainPinCodec ∅ farmCollections) n :=
    .tail (.hello 0 0 farmHello)
      (.tail (.connect ⟨"aa", some [9]⟩) (.refl _) trivial rfl) trivial rfl
  have proven := payloads_reach_proven_members farmExternals farmPki plainPinCodec plainEnvelopeCodec
    farmConfig ∅ farmCollections n run (.submit 0 true "prices" [7]) trivial
  rw [written] at proven
  exact ⟨written, proven _ mem_cons_self⟩

end GlassChain
